import FaultRelay.Proofs.StorageGone

/-! Where storage is gone, nothing is open. A list of handlers comes down to the first that asks for
nothing, every block to its body, and every errand to its bare reading. -/
namespace FaultRelay

variable {V : Vocabulary} {σ α β ρ : Type}

theorem Thread.bare_gone {thread : Thread V} (gone : thread.store = none) : thread.Bare :=
  fun key => stack_gone gone key

theorem World.without_gone {world : World V σ} (gone : world.thread.store = none) (id : Nat)
    (keys : List (Key V)) : world.without id keys = world := by
  induction keys with
  | nil => rfl
  | cons key rest ih =>
      have taken : Slot.takeFor key id world = (none, world) := Slot.onStack_gone gone key _
      rw [without_cons, taken]
      exact ih

theorem Argument.meaning?_blank {argument : Argument V} (builtIn : argument.isBuiltIn = true)
    {thread : Thread V} (bare : thread.Bare) (case : Case V) :
    argument.meaning? case thread = argument.blank? case.id := by
  have absent (key : Key V) : (thread.stack key).valueFor case.id.raw = none := by
    rw [bare key]
    rfl
  induction argument with
  | take key | copy key => rw [meaning?, absent, blank?, Option.map_none]
  | thrown | message => rw [meaning?, absent, blank?]; rfl
  | optional inner ih => rw [meaning?, ih builtIn, blank?]
  | summary => rw [meaning?, absent, blank?]; rfl
  | report => simp [meaning?, absent, blank?]
  | custom => cases builtIn

namespace Listener

variable (listeners : List (Listener V σ)) (respond : Nat → List (Reading V) → Act V σ ρ)

theorem handlers_chain :
    (chain listeners respond).handlers =
      listeners.zipIdx.map fun place => place.1.handler (respond place.2) :=
  Chain.handlers_ofList _

theorem scope_chain : Scope.forHandlers (chain listeners respond).handlers = scope listeners := by
  have same (index : Nat) :
      (listeners.zipIdx index).flatMap (fun place => place.1.interest.declarations) =
        listeners.flatMap fun listener => listener.interest.declarations := by
    induction listeners generalizing index with
    | nil => rfl
    | cons listener rest ih => rw [List.zipIdx_cons, List.flatMap_cons, ih, List.flatMap_cons]
  rw [handlers_chain, Scope.forHandlers, List.flatMap_map, scope, ← same 0]
  rfl

theorem interest_chain : (chain listeners respond).interest = allInterest listeners := by
  have same (index : Nat) (before : Chain V σ ρ) :
      (((listeners.zipIdx index).map fun place =>
        place.1.handler (respond place.2)).foldl Chain.add before).interest =
          listeners.foldl (fun interest listener => interest.merge listener.interest)
            before.interest := by
    induction listeners generalizing index before with
    | nil => rfl
    | cons listener rest ih =>
        rw [List.zipIdx_cons, List.map_cons, List.foldl_cons, ih]
        rfl
  exact same 0 .empty

theorem catching_chain :
    Scope.catching (chain listeners respond) = ⟨(allInterest listeners).insertKey .thrown⟩ := by
  rw [Scope.catching, interest_chain]

variable [Host V σ] {world : World V σ} (gone : world.thread.store = none)
include gone

theorem answer_gone {listener : Listener V σ} (always : listener.acceptsAll = true) (case : Case V)
    (respond : List (Reading V) → Act V σ ρ) :
    (listener.handler respond).answer? case world =
      (some <$> respond (listener.blanks case.id)) world := by
  obtain ⟨unconditional, available⟩ := Bool.and_eq_true_iff.1 always
  have plain : (listener.handler respond).Plain := by
    refine ⟨listener.builtIn, fun condition asked => ?_⟩
    have none : listener.conditions = [] := List.isEmpty_iff.1 unconditional
    rw [show (listener.handler respond).conditions = [] from none] at asked
    cases asked
  have means : ∀ argument ∈ listener.arguments,
      (argument.meaning? case world.thread).isSome = true := fun argument listed =>
    Argument.meaning?_always (listener.builtIn argument listed) case
      (List.all_eq_true.1 available argument listed) world.thread
  have blanks : Arguments.meanings case world.thread listener.arguments =
      listener.blanks case.id :=
    List.filterMap_congr fun argument listed =>
      Argument.meaning?_blank (listener.builtIn argument listed) (Thread.bare_gone gone) case
  have answered := answer_apply plain listener.free means
  rw [World.without_gone gone] at answered
  exact blanks ▸ answered

theorem dispatchFrom_gone (case : Case V) (index : Nat) :
    dispatchFrom case index
        ((listeners.zipIdx index).map fun place => place.1.handler (respond place.2)) world =
      Bare.outcome respond case.id
        ((listeners.zipIdx index).find? fun place => place.1.acceptsAll) world := by
  induction listeners generalizing index with
  | nil => rfl
  | cons listener rest ih =>
      rw [List.zipIdx_cons, List.map_cons, List.find?_cons]
      have asked : (listener.handler (respond index)).accepts case world =
          (.ok listener.acceptsAll, world) :=
        Handler.accepts_bare listener.builtIn case (Thread.bare_gone gone)
      unfold dispatchFrom
      rw [bind_ok (by rw [asked]), asked]
      cases always : listener.acceptsAll with
      | false => exact ih (index + 1)
      | true =>
          have told : (emit (.selected case.id index (Arguments.signature listener.arguments))
            world).2.thread.store = none := gone
          rw [if_pos rfl, bind_ok rfl]
          exact handled_of_answered (answer_gone told always case (respond index)) _

theorem dispatch_gone (id : FailureId) :
    (chain listeners respond).dispatch id world = Bare.dispatch listeners respond id world := by
  rw [Chain.dispatch, handlers_chain]
  exact dispatchFrom_gone listeners respond gone _ 0

end Listener

theorem Panel.dispatch_gone [Host V σ] (panel : Panel V σ)
    (respond : Nat → List (Reading V) → Act V σ ρ) {world : World V σ}
    (gone : world.thread.store = none) (id : FailureId) :
    (panel.total respond).dispatch id world = Bare.answer panel.first respond id world := by
  refine TotalChain.dispatch_handled ?_
  have found : Listener.first? panel.listeners = some panel.first := (Option.some_get _).symm
  refine (Listener.dispatch_gone panel.listeners respond gone id).trans ?_
  rw [Bare.dispatch, found]
  rfl

namespace Act.Degrades

variable [Host V σ] {throws : Thrown V → Prop}

theorem during (scope : Scope V) {body body' : OpenScope V → Act V σ α}
    (bodies : ∀ active, Degrades throws (body active) (body' active)) :
    Degrades throws (scope.during body) (Bare.during scope body') :=
  andThen (quietly (enter_degrades scope)) fun active =>
    ensuring (bodies active) (quietly (leave_degrades active))

section Guards

variable (ending : ∀ (kind : V.Kind) (value : V.Value kind) (world : World V σ),
  world.thread.store = none → (Host.destroy kind value world).2.thread.store = none)
include ending

theorem fire (context : Context V (Deferred V σ)) (id : FailureId) :
    Degrades throws (Guard.fire (fun _ code => code) context id)
      (FaultRelay.quietly (Bare.fire context id)) := by
  cases context with
  | prepared payloads => exact quietly (recordAll_gone ending payloads id)
  | deferred key code =>
      -- The callback is not run, for its type is not open.
      refine via (fun world gone => ?_) (quietly (noteStray_gone key id))
      have closed : (FaultRelay.quietly (Slot.isOpen key) : Act V σ Bool) world =
          (.ok false, world) := by
        change (Except.ok (Slot.isOpen key world).1, (Slot.isOpen key world).2) = _
        rw [Slot.isOpen, Slot.look_gone gone]
        rfl
      refine (bind_ok (congrArg Prod.fst closed)).trans ?_
      rw [closed]
      rfl

theorem drop (guard : Guard V (Deferred V σ)) :
    Degrades throws (guard.drop fun _ code => code) (FaultRelay.quietly (Bare.drop guard)) := by
  have looked := (Quiet.IgnoresStorage.target (σ := σ) guard).degrades
  unfold Bare.drop
  rw [quietly_bind]
  refine andThen (quietly looked) fun found => ?_
  cases found with
  | some id => exact fire ending guard.context id
  | none => exact quietly (dismiss_gone ending guard)

theorem under (context : Context V (Deferred V σ)) {body body' : Act V σ α}
    (degrades : Degrades throws body body') :
    Degrades throws (Guard.around (fun _ code => code) context body) (Bare.under context body') :=
  andThen (quietly (.still fun _ gone => gone)) fun guard =>
    ensuring degrades (drop ending guard)

theorem keep (object : Thrown V) :
    Degrades throws (FaultRelay.quietly object.keep) (FaultRelay.quietly (Bare.keep object) :
      Act V σ FailureId) := by
  have identified := (Quiet.IgnoresStorage.identify (σ := σ) object).degrades
  refine quietly (.seq identified fun id => .seq (.still fun _ gone => gone) fun _ => ?_)
  exact .seq (record_unheard ending .thrown object id) fun _ => .still fun _ gone => gone

end Guards

theorem answer (place : Listener V σ × Nat) {respond respond' : Nat → List (Reading V) → Act V σ ρ}
    (responds : ∀ index readings,
      Degrades throws (respond index readings) (respond' index readings)) (id : FailureId) :
    Degrades throws (Bare.answer place respond id) (Bare.answer place respond' id) :=
  andThen (quietly (.still fun _ gone => gone)) fun _ => responds _ _

theorem dispatch (listeners : List (Listener V σ))
    {respond respond' : Nat → List (Reading V) → Act V σ ρ}
    (responds : ∀ index readings,
      Degrades throws (respond index readings) (respond' index readings)) (id : FailureId) :
    Degrades throws ((Listener.chain listeners respond).dispatch id)
      (Bare.dispatch listeners respond' id) := by
  refine via (fun world gone => Listener.dispatch_gone listeners respond gone id) ?_
  unfold Bare.dispatch
  cases Listener.first? listeners with
  | some place => exact map _ (answer place responds id)
  | none => exact andThen (quietly (.still fun _ gone => gone)) fun _ => just _

theorem dispatchTotal (panel : Panel V σ)
    {respond respond' : Nat → List (Reading V) → Act V σ ρ}
    (responds : ∀ index readings,
      Degrades throws (respond index readings) (respond' index readings)) (id : FailureId) :
    Degrades throws ((panel.total respond).dispatch id) (Bare.answer panel.first respond' id) :=
  via (fun _ gone => panel.dispatch_gone respond gone id) (answer panel.first responds id)

section Blocks

variable {listeners : List (Listener V σ)} {panel : Panel V σ}

theorem handleAll {body body' : Act V σ (Except FailureId α)}
    {respond respond' : Nat → List (Reading V) → Act V σ α} (tries : Degrades throws body body')
    (responds : ∀ index readings,
      Degrades throws (respond index readings) (respond' index readings)) :
    Degrades throws (FaultRelay.handleAll body (panel.total respond))
      (Bare.handleAll body' panel respond') := by
  unfold FaultRelay.handleAll Bare.handleAll
  rw [show Scope.forHandlers (panel.total respond).chain.handlers = _ from
    Listener.scope_chain panel.listeners respond]
  refine during _ fun _ => andThen tries fun ended => ?_
  cases ended with
  | ok value => exact just value
  | error id => exact dispatchTotal panel responds id

theorem handleSome {body body' : Act V σ (Except FailureId α)}
    {respond respond' : Nat → List (Reading V) → Act V σ (Except FailureId α)}
    (tries : Degrades throws body body')
    (responds : ∀ index readings,
      Degrades throws (respond index readings) (respond' index readings)) :
    Degrades throws (FaultRelay.handleSome body (Listener.chain listeners respond))
      (Bare.handleSome body' listeners respond') := by
  unfold FaultRelay.handleSome Bare.handleSome
  rw [Listener.scope_chain listeners respond]
  refine during _ fun _ => andThen tries fun ended => ?_
  cases ended with
  | ok value => exact just _
  | error id =>
      refine andThen (dispatch listeners responds id) fun outcome => ?_
      cases outcome <;> exact just _

variable (ending : ∀ (kind : V.Kind) (value : V.Value kind) (world : World V σ),
  world.thread.store = none → (Host.destroy kind value world).2.thread.store = none)
include ending

theorem catchUnwinding {throws' : Thrown V → Prop} {body body' : Act V σ α}
    {respond respond' : Nat → List (Reading V) → Act V σ α} (tries : Degrades throws' body body')
    (responds : ∀ index readings,
      Degrades throws (respond index readings) (respond' index readings)) :
    Degrades throws (FaultRelay.catchUnwinding body (panel.total respond))
      (Bare.catchUnwinding body' panel respond') := by
  unfold FaultRelay.catchUnwinding Bare.catchUnwinding
  rw [show Scope.catching (panel.total respond).chain = _ from
    Listener.catching_chain panel.listeners respond]
  refine during _ fun _ => andThen tries.attempt fun ended => ?_
  cases ended with
  | ok value => exact just value
  | error object => exact andThen (keep ending object) (dispatchTotal panel responds)

theorem catchBoth {throws' : Thrown V → Prop} {body body' : Act V σ (Except FailureId α)}
    {respond respond' : Nat → List (Reading V) → Act V σ α} (tries : Degrades throws' body body')
    (responds : ∀ index readings,
      Degrades throws (respond index readings) (respond' index readings)) :
    Degrades throws (FaultRelay.catchBoth body (panel.total respond))
      (Bare.catchBoth body' panel respond') := by
  unfold FaultRelay.catchBoth Bare.catchBoth
  rw [show Scope.catching (panel.total respond).chain = _ from
    Listener.catching_chain panel.listeners respond]
  refine during _ fun _ => andThen tries.attempt fun ended => ?_
  rcases ended with object | id | value
  · exact andThen (keep ending object) (dispatchTotal panel responds)
  · exact dispatchTotal panel responds id
  · exact just value

end Blocks

theorem pack (keys : List (Key V)) {body body' : Act V σ (Except FailureId α)}
    (tries : Degrades throws body body') :
    Degrades throws (Parcel.pack keys body) (Bare.pack keys body') := by
  refine during _ fun _ => andThen tries fun ended => ?_
  cases ended with
  | ok value => exact just _
  | error id =>
      have collected : Quiet.Degrades (Parcel.collect id keys : Quiet V σ (List (Payload V)))
          (pure []) := .idle fun world gone => collect_gone gone id keys
      exact andThen (quietly collected) fun payloads => just _

end Act.Degrades

section Errands

namespace Act.Degrades

variable {throws : Thrown V → Prop}

theorem untouched {act : Quiet V σ α}
    (gone : ∀ world, world.thread.store = none → (act world).2.thread.store = none)
    (reply : α → Reply V σ) :
    Degrades throws (reply <$> FaultRelay.quietly act) (reply <$> FaultRelay.quietly act) :=
  map reply (quietly (.still gone))

theorem answered {act : Quiet V σ α} {value : α}
    (same : ∀ world, world.thread.store = none → act world = (value, world))
    (reply : α → Reply V σ) :
    Degrades throws (reply <$> FaultRelay.quietly act) (pure (reply value)) :=
  map reply (quietly (.idle same))

end Act.Degrades

variable [Host V σ]

/-- To declare a handler is to check that no two arguments take out of one slot. -/
theorem make_degrades {arguments : List (Argument V)}
    (builtIn : ∀ argument ∈ arguments, argument.isBuiltIn = true)
    (conditions : List (Condition V σ)) (respond : List (Reading V) → Act V σ ρ) :
    Act.Degrades (Operation.declare (σ := σ) arguments).Throws
      (Handler.make arguments conditions respond) (Handler.make arguments conditions respond) := by
  intro world gone
  rw [make_apply builtIn]
  rcases conflict : Arguments.conflict? arguments with _ | key
  · exact ⟨rfl, gone, nofun, nofun⟩
  · refine ⟨rfl, gone, nofun, fun object unwound => ?_⟩
    cases unwound
    exact ⟨key, conflict, rfl⟩

variable (ending : ∀ (kind : V.Kind) (value : V.Value kind) (world : World V σ),
  world.thread.store = none → (Host.destroy kind value world).2.thread.store = none)
include ending

theorem Operation.degrades {operation : Operation V σ} (single : operation.isStep = true) :
    Act.Degrades operation.Throws operation.run operation.bare := by
  cases operation with
  | mint => exact .map _ (.quietly Quiet.IgnoresStorage.mint.degrades)
  | reserve => exact .map _ (.quietly Quiet.IgnoresStorage.reserve.degrades)
  | target guard => exact .map _ (.quietly (Quiet.IgnoresStorage.target guard).degrades)
  | identify object => exact .map _ (.quietly (Quiet.IgnoresStorage.identify object).degrades)
  | inForce => exact .map _ (.quietly Quiet.IgnoresStorage.inForce.degrades)
  | adopt settings => exact .map _ (.quietly (Quiet.IgnoresStorage.adopt settings).degrades)
  | tallying => exact .map _ (.quietly Quiet.IgnoresStorage.tallying.degrades)
  | current | unwinding | arm context | stop => exact .untouched (fun _ gone => gone) _
  | newFailure payloads =>
      refine .map _ (.quietly (.seq Quiet.IgnoresStorage.mint.degrades fun id => ?_))
      exact .seq (recordAll_gone ending payloads id) fun _ => .still fun _ gone => gone
  | record key value id => exact .map _ (.quietly (record_gone ending key value id))
  | openFor key owner => exact .answered (fun _ gone => Slot.openFor_gone gone key owner) .count
  | close key owner => exact .answered (fun _ gone => Slot.onStack_gone gone key _) (.closed key)
  | put key id value => exact .answered (fun _ gone => Slot.onStack_gone gone key _) (.stored key)
  | editTop key change => exact .answered (fun _ gone => Slot.onStack_gone gone key _) .flag
  | isOpen key => exact .answered (fun _ gone => Slot.look_gone gone key _) .flag
  | depth key => exact .answered (fun _ gone => Slot.look_gone gone key _) .count
  | topId key => exact .answered (fun _ gone => Slot.look_gone gone key _) .tag
  | holds key id =>
      refine .answered (fun world gone => ?_) .flag
      rw [Slot.holds_apply, Thread.stack_gone gone]
      rfl
  | valueFor key id => exact .answered (fun _ gone => Slot.look_gone gone key _) (.value key)
  | takeFor key id => exact .answered (fun _ gone => Slot.onStack_gone gone key _) (.value key)
  | types =>
      refine .answered (fun world gone => ?_) .count
      change ((world.thread.store.map Store.types).getD 0, world) = _
      rw [gone]
      rfl
  | endStorage => exact .answered (fun _ gone => Slot.endStorage_gone gone) fun _ => .done
  | lend key id use =>
      refine .via (fun world gone => ?_) (.just _)
      change ((fun found : Option (Reply V σ) => found.elim Reply.done Reply.handled) <$>
        Slot.lend key id.raw use) world = _
      rw [map_apply, Slot.lend_gone gone]
      rfl
  | enter scope => exact .map _ (.quietly (enter_degrades scope))
  | leave active => exact .map _ (.quietly (leave_degrades active))
  | dismiss guard => exact .map _ (.quietly (dismiss_gone ending guard))
  | drop guard => exact .map _ (.drop ending guard)
  | declare arguments => exact .map _ (make_degrades (List.all_eq_true.1 single) [] _)
  | collect id keys => exact .answered (fun _ gone => collect_gone gone id keys) .payloads
  | unpack parcel =>
      have told : Quiet.Degrades (emit (.replaying parcel.id parcel.size) : Quiet V σ Unit) _ :=
        .still fun _ gone => gone
      refine .map _ (.quietly (.seq told fun _ => ?_))
      exact .seq (recordAll_gone ending parcel.payloads parcel.id) fun _ => .still fun _ gone => gone
  | release payloads => exact .map _ (.quietly (releaseAll_gone ending payloads))
  | raise id => exact .andThen (.quietly (.still fun _ gone => gone)) fun _ => .unwind _
  | unwind object => exact .unwind object
  | keep object => exact .map _ (.keep ending object)
  | dispatch | dispatchTotal | handleAll | handleSome | catchUnwinding | catchBoth | pack =>
      cases single

/-- By induction on the errand, with one rule for each way of combining. -/
theorem Errand.degrades (errand : Errand V σ α) :
    Act.Degrades errand.Throws errand.run errand.bare := by
  induction errand with
  | done value => exact .just value
  | andThen errand next first later => exact .bind first later
  | own change => exact .quietly (.still fun _ gone => gone)
  | step operation single => exact Operation.degrades ending single
  | attempt body ih => exact ih.attempt
  | within scope body ih =>
      exact .during scope fun active => (ih active).widen fun _ throws => ⟨active, throws⟩
  | under context body ih => exact .under ending context ih
  | dispatch listeners respond id ih =>
      exact .dispatch listeners (fun index readings =>
        (ih index readings).widen fun _ throws => ⟨index, readings, throws⟩) id
  | dispatchTotal panel respond id ih =>
      exact .dispatchTotal panel (fun index readings =>
        (ih index readings).widen fun _ throws => ⟨index, readings, throws⟩) id
  | handleAll body panel respond tries ih =>
      exact .handleAll (tries.widen fun _ => .inl) fun index readings =>
        (ih index readings).widen fun _ throws => .inr ⟨index, readings, throws⟩
  | handleSome body listeners respond tries ih =>
      exact .handleSome (tries.widen fun _ => .inl) fun index readings =>
        (ih index readings).widen fun _ throws => .inr ⟨index, readings, throws⟩
  | catchUnwinding body panel respond tries ih =>
      exact .catchUnwinding ending tries fun index readings =>
        (ih index readings).widen fun _ throws => ⟨index, readings, throws⟩
  | catchBoth body panel respond tries ih =>
      exact .catchBoth ending tries fun index readings =>
        (ih index readings).widen fun _ throws => ⟨index, readings, throws⟩
  | pack keys body ih => exact .pack keys ih

end Errands

/-- On a thread whose storage is gone every errand does what its bare reading says, however deep its
blocks are nested, and there are no slots in that reading. Storage does not come back, and what
unwinds was raised, or refused as a handler that takes out of one slot twice. The identities and
tokens of the thread have nothing to do with its storage, nor has what a guard goes by. -/
theorem without_storage_nothing_is_open [Host V σ]
    (ending : ∀ (kind : V.Kind) (value : V.Value kind) (world : World V σ),
      world.thread.store = none → (Host.destroy kind value world).2.thread.store = none) :
    (∀ {α : Type} (errand : Errand V σ α) (world : World V σ), world.thread.store = none →
      Lapsed errand.Throws (errand.run world) (errand.bare world)) ∧
    (FailureId.mint : Quiet V σ FailureId).IgnoresStorage ∧
    (FailureId.reserve : Quiet V σ FailureId).IgnoresStorage ∧
    (FailureId.current : Quiet V σ (Option FailureId)).IgnoresStorage ∧
    (Token.next : Quiet V σ Token).IgnoresStorage ∧
    ∀ guard : Guard V (Deferred V σ),
      (guard.target : Quiet V σ (Option FailureId)).IgnoresStorage :=
  ⟨fun errand world gone => Errand.degrades ending errand world gone, .mint, .reserve, .current,
    fun _ _ => rfl, .target⟩

namespace Scenario

def dusk : World application (Ledger application Unit) := (Slot.endStorage dawn).2

/-- Not even the destructor of an echo, which records a code, brings storage back. -/
theorem ending_leaves_storage_gone (kind : Kind) (value : kind.Value)
    (world : World application (Ledger application Unit)) (gone : world.thread.store = none) :
    (Host.destroy (V := application) kind value world).2.thread.store = none := by
  cases kind with
  | echo =>
      have still (number : Int) : (endCode number).Degrades (endCode number) :=
        .still fun _ gone => gone
      exact (recordEnding_gone (Topic.ofKind .code) still value echoed).gone _ gone
  | code | name | flag | tags | unit | noisy | byte | string => exact gone

def lastWords : Panel application (Ledger application Unit) where
  listeners := [
    ⟨[.copy (Topic.ofKind .echo)], [], List.all_eq_true.1 rfl, Arguments.conflict?_iff.1 rfl⟩,
    ⟨[.optional (.take (Topic.ofKind .echo)), .summary], [], List.all_eq_true.1 rfl,
      Arguments.conflict?_iff.1 rfl⟩]
  ends := ⟨_, rfl, rfl⟩

def farewell : Errand application (Ledger application Unit) (Nat × List (Reading application)) :=
  .within outerScope fun _ =>
    .catchUnwinding
      (.andThen (.step (.record (Topic.ofKind .echo) (7 : Int) echoed) rfl) fun _ =>
        .andThen (.step (.raise echoed) rfl) fun _ => .done (0, []))
      lastWords fun index readings => .done (index, readings)

/-- The second handler is selected, with nothing. The echo has ended once, and so has the code that
it ended with. -/
theorem nobody_hears_the_farewell :
    (farewell.run dusk).1 = .ok (1, [.optional none, .summary echoed false]) ∧
      (farewell.run dusk).2.host.ended = [payload .code (7 : Int), payload .echo (7 : Int)] := by
  obtain ⟨degrades, _⟩ := without_storage_nothing_is_open (V := application)
    ending_leaves_storage_gone
  rw [(degrades farewell dusk rfl).same]
  exact ⟨rfl, rfl⟩

end Scenario

end FaultRelay

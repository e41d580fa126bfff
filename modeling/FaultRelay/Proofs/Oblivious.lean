import FaultRelay.Guard
import FaultRelay.Handler.Block
import FaultRelay.Proofs.Alike
import FaultRelay.Proofs.ArgumentMeaning

/-! Operations that cannot tell what lies beneath them. Whatever two runs started over, such an
operation ends in the same way in both, and the runs stay alike. The operations of the library are
of this kind, and so is what is built from them; only depths and tokens show the difference. -/
namespace FaultRelay

variable {V : Vocabulary} {σ α β : Type} [Discreet V σ]

def Oblivious {β : Type} (act : Quiet V σ β) : Prop :=
  ∀ (link : Link V) (world world' : World V σ), link.Alike world world' →
    (act world).1 = (act world').1 ∧ link.Alike (act world).2 (act world').2

namespace Oblivious

section Quietly

theorem still (value : α) : Oblivious (pure value : Quiet V σ α) := fun _ _ _ alike => ⟨rfl, alike⟩

theorem seq {act : Quiet V σ α} {next : α → Quiet V σ β} (first : Oblivious act)
    (later : ∀ value, Oblivious (next value)) : Oblivious (act >>= next) := by
  intro link world world' alike
  obtain ⟨same, after⟩ := first link world world' alike
  have same' : (act >>= next) world' = next (act world).1 (act world').2 :=
    congrArg (next · (act world').2) same.symm
  rw [same']
  exact later _ link _ _ after

theorem emit (event : Event) : Oblivious (emit event : Quiet V σ Unit) :=
  fun _ _ _ alike => ⟨rfl, alike.emit event event⟩

theorem release (key : Key V) (value : key.Value) :
    Oblivious (release key value : Quiet V σ Unit) := by
  rw [release_inert]
  exact still ()

theorem upcoming : Oblivious (FailureId.upcoming : Quiet V σ FailureId) := by
  intro link world world' alike
  rcases promised : world.thread.reserved with _ | id
  · rw [FailureId.upcoming_unreserved promised,
      FailureId.upcoming_unreserved (alike.reserved ▸ promised)]
    refine ⟨?_, { alike with process := ?_ }⟩
    · change FailureId.numbered (world.process.drawn + 1) =
        FailureId.numbered (world'.process.drawn + 1)
      rw [alike.process]
    · change { world.process with drawn := world.process.drawn + 1 } =
        { world'.process with drawn := world'.process.drawn + 1 }
      rw [alike.process]
  · rw [FailureId.upcoming_reserved promised,
      FailureId.upcoming_reserved (alike.reserved ▸ promised)]
    exact ⟨rfl, alike⟩

theorem mint : Oblivious (FailureId.mint : Quiet V σ FailureId) := by
  intro link world world' alike
  obtain ⟨same, after⟩ := upcoming link world world' alike
  rw [FailureId.mint_apply, FailureId.mint_apply]
  exact ⟨same, { after with current := congrArg some same, reserved := rfl }⟩

theorem reserve : Oblivious (FailureId.reserve : Quiet V σ FailureId) := by
  intro link world world' alike
  obtain ⟨same, after⟩ := upcoming link world world' alike
  rw [FailureId.reserve_apply, FailureId.reserve_apply]
  exact ⟨same, { after with reserved := congrArg some same }⟩

theorem current : Oblivious (FailureId.current : Quiet V σ (Option FailureId)) :=
  fun _ _ _ alike => ⟨alike.current, alike⟩

theorem valueFor (key : Key V) (id : Nat) :
    Oblivious (Slot.valueFor key id : Quiet V σ (Option key.Value)) :=
  fun _ _ _ alike => ⟨alike.valueFor key id, alike⟩

theorem isOpen (key : Key V) : Oblivious (Slot.isOpen key : Quiet V σ Bool) :=
  fun _ _ _ alike => ⟨(alike.frames key).isOpen, alike⟩

/-- What is done to a stack does not show what lies beneath if it answers alike on stacks that
are. -/
theorem onStack {key : Key V} {change : Stack key.Value → β × Stack key.Value}
    (alike : ∀ (link : Link V) (stack stack' : Stack key.Value),
      link.Paired key stack.frames stack'.frames → (change stack).1 = (change stack').1 ∧
        link.Paired key (change stack).2.frames (change stack').2.frames) :
    Oblivious (Slot.onStack key change : Quiet V σ β) := by
  intro link world world' before
  obtain ⟨same, paired⟩ := alike link _ _ (before.frames key)
  exact ⟨same, before.setStack paired⟩

theorem put (key : Key V) (id : Nat) (value : key.Value) :
    Oblivious (Slot.put key id value : Quiet V σ (Stored key.Value)) :=
  onStack fun _ _ _ paired => paired.put id value

theorem takeFor (key : Key V) (id : Nat) :
    Oblivious (Slot.takeFor key id : Quiet V σ (Option key.Value)) :=
  onStack fun _ _ _ paired => paired.takeFor id

theorem editTop (key : Key V) (change : Option (Nat × key.Value) → Option (Nat × key.Value)) :
    Oblivious (Slot.editTop key change : Quiet V σ Bool) :=
  onStack fun _ _ _ paired => ⟨paired.isOpen, paired.onTop change fun _ => rfl⟩

theorem tallying : Oblivious (tallying : Quiet V σ Bool) := by
  intro link world world' alike
  have settings : world.settings = world'.settings := by
    rw [World.settings, World.settings, alike.process]
  rw [tallying_apply, tallying_apply, settings, alike.tallying]
  exact ⟨rfl, { alike with process := by rw [alike.process] }⟩

theorem noteStray (key : Key V) (id : FailureId) :
    Oblivious (noteStray key id : Quiet V σ Unit) := by
  refine seq (emit _) fun _ => seq tallying fun counts => ?_
  cases counts with
  | false => exact still ()
  | true => exact seq (editTop .tally _) fun _ => still ()

theorem record (key : Key V) (value : key.Value) (id : FailureId) :
    Oblivious (record key value id : Quiet V σ Bool) := by
  refine seq (put key id.raw value) fun stored => ?_
  cases stored with
  | stored previous =>
      cases previous with
      | none => exact still true
      | some value => exact seq (release key value) fun _ => still true
  | rejected value =>
      exact seq (release key value) fun _ => seq (noteStray key id) fun _ => still false

theorem recordAll (payloads : List (Payload V)) (id : FailureId) :
    Oblivious (recordAll payloads id : Quiet V σ Unit) := by
  induction payloads with
  | nil => exact still ()
  | cons payload rest ih =>
      exact seq (seq (record payload.key payload.value id) fun _ => still ()) fun _ => ih

theorem newFailure (payloads : List (Payload V)) :
    Oblivious (newFailure payloads : Quiet V σ FailureId) :=
  seq mint fun id => seq (recordAll payloads id) fun _ => still id

theorem unwinding : Oblivious (Guard.unwinding : Quiet V σ Bool) := fun _ _ _ alike =>
  ⟨congrArg (fun count => decide (0 < count)) alike.unwindings, alike⟩

theorem arm {κ : Key V → Type} (context : Context V κ) :
    Oblivious (Guard.arm context : Quiet V σ (Guard V κ)) :=
  seq current fun _ => seq unwinding fun _ => still _

theorem target {κ : Key V → Type} (guard : Guard V κ) :
    Oblivious (guard.target : Quiet V σ (Option FailureId)) := by
  refine seq current fun id => ?_
  split
  · exact still id
  · refine seq unwinding fun unwinds => ?_
    split
    · exact seq reserve fun id => still (some id)
    · exact still none

theorem dismiss {κ : Key V → Type} (guard : Guard V κ) :
    Oblivious (guard.dismiss : Quiet V σ Unit) := by
  obtain ⟨context, baseline, wasUnwinding⟩ := guard
  cases context with
  | deferred => exact still ()
  | prepared payloads =>
      change Oblivious (releaseAll payloads)
      induction payloads with
      | nil => exact still ()
      | cons payload rest ih => exact seq (release payload.key payload.value) fun _ => ih

end Quietly

section Acting

variable {act : Act V σ α}

theorem quietly {act : Quiet V σ α} (quiet : Oblivious act) :
    Oblivious (quietly act : Act V σ α) := fun link world world' alike =>
  ⟨congrArg Except.ok (quiet link world world' alike).1, (quiet link world world' alike).2⟩

theorem pure (value : α) : Oblivious (pure value : Act V σ α) := fun _ _ _ alike => ⟨rfl, alike⟩

theorem bind {next : α → Act V σ β} (first : Oblivious act)
    (later : ∀ value, Oblivious (next value)) : Oblivious (act >>= next : Act V σ β) := by
  intro link world world' alike
  obtain ⟨same, after⟩ := first link world world' alike
  rcases ended : (act world).1 with exit | value
  · rw [bind_error ended, bind_error (same ▸ ended)]
    exact ⟨rfl, after⟩
  · rw [bind_ok ended, bind_ok (same ▸ ended)]
    exact later value link _ _ after

theorem unwind (object : Thrown V) : Oblivious (Act.unwind object : Act V σ α) :=
  fun _ _ _ alike => ⟨rfl, { alike with unwindings := congrArg (· + 1) alike.unwindings }⟩

theorem attempt (body : Oblivious act) : Oblivious act.attempt := by
  intro link world world' alike
  obtain ⟨same, after⟩ := body link world world' alike
  unfold Act.attempt
  rcases first : act world with ⟨ended, later⟩
  rcases second : act world' with ⟨ended', later'⟩
  rw [first, second] at same after
  cases same
  rcases ended with (object | _) | value
  · exact ⟨rfl, { after with unwindings := congrArg (· - 1) after.unwindings }⟩
  · exact ⟨rfl, after⟩
  · exact ⟨rfl, after⟩

theorem ensuring {after : Quiet V σ Unit} (body : Oblivious act) (cleanup : Oblivious after) :
    Oblivious (act.ensuring (FaultRelay.quietly after)) := by
  intro link world world' alike
  obtain ⟨same, later⟩ := body link world world' alike
  rw [ensuring_quietly_apply, ensuring_quietly_apply, ← same]
  obtain ⟨_, last⟩ := cleanup link _ _ later
  rcases (act world).1 with (object | _) | value
  · exact ⟨rfl, last⟩
  · exact ⟨rfl, later⟩
  · exact ⟨rfl, last⟩

theorem onUnwinding {after : Act V σ Unit} (body : Oblivious act) (cleanup : Oblivious after) :
    Oblivious (act.onUnwinding after) := by
  intro link world world' alike
  obtain ⟨same, later⟩ := body link world world' alike
  rcases ended : (act world).1 with (object | _) | value
  · obtain ⟨ends, last⟩ := cleanup link _ _ later
    rw [onUnwinding_cleanup ended, onUnwinding_cleanup (same ▸ ended), ← ends]
    exact ⟨rfl, last⟩
  · have intact : ∀ object, (act world).1 ≠ .error (.unwinding object) := by simp [ended]
    rw [onUnwinding_passed intact, onUnwinding_passed (same ▸ intact)]
    exact ⟨same, later⟩
  · have intact : ∀ object, (act world).1 ≠ .error (.unwinding object) := by simp [ended]
    rw [onUnwinding_passed intact, onUnwinding_passed (same ▸ intact)]
    exact ⟨same, later⟩

theorem raise (id : FailureId) : Oblivious (id.raise : Act V σ α) :=
  bind (quietly (emit _)) fun _ => unwind _

/-- A guard does not show what lies beneath unless its callback does. -/
theorem drop {κ : Key V → Type} {run : (key : Key V) → κ key → Act V σ key.Value}
    (runs : ∀ key code, Oblivious (run key code)) (guard : Guard V κ) :
    Oblivious (guard.drop run) := by
  refine bind (quietly (target guard)) fun found => ?_
  cases found with
  | none => exact quietly (dismiss guard)
  | some id =>
      change Oblivious (Guard.fire run guard.context id)
      cases guard.context with
      | prepared payloads => exact quietly (recordAll payloads id)
      | deferred key code =>
          refine bind (quietly (isOpen key)) fun isOpen => ?_
          cases isOpen with
          | true =>
              refine bind (runs key code) fun value => ?_
              exact bind (quietly (record key value id)) fun _ => pure ()
          | false => exact quietly (noteStray key id)

end Acting

end Oblivious

namespace Link.Alike

variable {link : Link V} {world world' : World V σ} {key : Key V}

/-- A lent value goes back in both runs, or in none. -/
theorem restore (alike : link.Alike world world') {owner owner' : Token}
    (twin : link.Twin key owner owner') (id : Nat) (value : key.Value) :
    link.Alike (Slot.restore key owner id value world).2
      (Slot.restore key owner' id value world').2 := by
  have paired := alike.frames key
  rw [restore_inert, restore_inert, paired.frameOf? twin]
  rcases ((world'.thread.stack key).frameOf? owner').map Frame.held with _ | _ | held
  · exact alike
  · exact alike.setStack (paired.onFrame twin id value)
  · exact alike

theorem openSlots (alike : link.Alike world world') {owner owner' : Token} {keys : List (Key V)}
    (twin : ∀ key ∈ keys, link.Twin key owner owner') :
    link.Alike (keys.forM (Scope.openSlot owner) world).2
      (keys.forM (Scope.openSlot owner') world').2 := by
  induction keys generalizing world world' with
  | nil => exact alike
  | cons key rest ih =>
      obtain ⟨own, others⟩ := List.forall_mem_cons.1 twin
      have opened := alike.setStack ((alike.frames key).openFor own)
      exact ih (opened.emit (.opened key.name _) (.opened key.name _)) others

theorem closeSlot (alike : link.Alike world world') (n : Nat) (key : Key V) :
    link.Alike (Scope.closeSlot (.numbered (link.left + n + 1)) key world).2
      (Scope.closeSlot (.numbered (link.right + n + 1)) key world').2 := by
  obtain ⟨answers, paired⟩ := (alike.frames key).close n
  have closed : link.Alike
      { world with thread := world.thread.setStack key ((world.thread.stack key).close _).2 }
      { world' with thread := world'.thread.setStack key ((world'.thread.stack key).close _).2 } :=
    alike.setStack paired
  rw [closeSlot_apply, closeSlot_apply,
    show ((world.thread.stack key).close _).1 = ((world'.thread.stack key).close _).1 from answers]
  rcases ((world'.thread.stack key).close _).1 with _ | _ | _ | _ | _
  · exact closed
  · exact closed
  · exact closed.emit _ _
  · exact closed.emit _ _
  · exact closed

theorem closeSlots (alike : link.Alike world world') (n : Nat) (keys : List (Key V)) :
    link.Alike (keys.forM (Scope.closeSlot (.numbered (link.left + n + 1))) world).2
      (keys.forM (Scope.closeSlot (.numbered (link.right + n + 1))) world').2 := by
  induction keys generalizing world world' with
  | nil => exact alike
  | cons key rest ih => exact ih (alike.closeSlot n key)

theorem counted (alike : link.Alike world world') (change : Nat → Nat) :
    link.Alike { world with thread.tallying := change world.thread.tallying }
      { world' with thread.tallying := change world'.thread.tallying } :=
  { alike with tallying := congrArg change alike.tallying }

/-- A scope has the same place in both runs, though not the same token. -/
theorem enter (alike : link.Alike world world') (scope : Scope V) :
    ∃ n, (scope.enter world).1 = ⟨scope.interest, .numbered (link.left + n + 1),
        scope.interest.tallies⟩ ∧
      (scope.enter world').1 = ⟨scope.interest, .numbered (link.right + n + 1),
        scope.interest.tallies⟩ ∧
      link.Alike (scope.enter world).2 (scope.enter world').2 := by
  obtain ⟨n, drawn, drawn'⟩ := alike.tokens
  have next : link.Alike { world with thread.lastToken := world.thread.lastToken + 1 }
      { world' with thread.lastToken := world'.thread.lastToken + 1 } :=
    { alike with tokens := ⟨n + 1, congrArg (· + 1) drawn, congrArg (· + 1) drawn'⟩ }
  have twin : ∀ key ∈ scope.interest.keys, link.Twin key (.numbered (world.thread.lastToken + 1))
      (.numbered (world'.thread.lastToken + 1)) := fun key _ => by
    rw [drawn, drawn']
    exact .later n
  have opened : link.Alike (scope.opened world) (scope.opened world') := next.openSlots twin
  refine ⟨n, by rw [enter_apply, drawn], by rw [enter_apply, drawn'], ?_⟩
  rw [enter_apply, enter_apply, Scope.entered, Scope.entered]
  cases scope.interest.tallies with
  | true => exact (opened.counted (· + 1)).emit _ _
  | false => exact opened.emit _ _

theorem leave (alike : link.Alike world world') (interest : Interest V) (tallies : Bool) (n : Nat) :
    link.Alike (OpenScope.leave ⟨interest, .numbered (link.left + n + 1), tallies⟩ world).2
      (OpenScope.leave ⟨interest, .numbered (link.right + n + 1), tallies⟩ world').2 := by
  have closed := alike.closeSlots n interest.keys.reverse
  cases tallies with
  | true => exact (closed.counted (· - 1)).emit _ _
  | false => exact closed.emit _ _

end Link.Alike

namespace Oblivious

theorem lend {key : Key V} {use : key.Value → Act V σ α} (id : Nat)
    (uses : ∀ value, Oblivious (use value)) : Oblivious (Slot.lend key id use) := by
  intro link world world' alike
  have found := alike.valueFor key id
  rcases held : (world.thread.stack key).valueFor id with _ | value
  · rw [lendNothing_apply held, lendNothing_apply (found ▸ held)]
    exact ⟨rfl, alike⟩
  · obtain ⟨_, taken⟩ := takeFor key id link world world' alike
    obtain ⟨same, used⟩ := uses value link _ _ taken
    rcases (alike.frames key).top with ⟨none, _⟩ | ⟨_, _, _, _, _, _, top, top', twin⟩
    · rw [show world.thread.stack key = ⟨[]⟩ from congrArg Stack.mk none] at held
      cases held
    · have innermost := congrArg List.head? top
      have innermost' := congrArg List.head? top'
      have back := used.restore twin id value
      rw [lend_apply innermost held, lend_apply innermost' (found ▸ held), map_apply, map_apply,
        ensuring_quietly_apply, ensuring_quietly_apply, ← same]
      rcases (use value (Slot.takeFor key id world).2).1 with (object | _) | answer
      · exact ⟨rfl, back⟩
      · exact ⟨rfl, used⟩
      · exact ⟨rfl, back⟩

theorem during (scope : Scope V) {act : Act V σ α} (body : Oblivious act) :
    Oblivious (scope.during fun _ => act) := by
  intro link world world' alike
  obtain ⟨n, active, active', entered⟩ := alike.enter scope
  obtain ⟨same, after⟩ := body link _ _ entered
  have left := after.leave scope.interest scope.interest.tallies n
  rw [during_apply, during_apply, active, active', ← same]
  rcases (act (scope.enter world).2).1 with (object | _) | value
  · exact ⟨rfl, left⟩
  · exact ⟨rfl, after⟩
  · exact ⟨rfl, left⟩

section Handlers

variable {case : Case V}

theorem holds (key : Key V) (id : Nat) : Oblivious (Slot.holds key id : Quiet V σ Bool) := by
  intro link world world' alike
  rw [Slot.holds_apply, Slot.holds_apply, Stack.topId?_eq, Stack.topId?_eq, alike.valueFor]
  exact ⟨rfl, alike⟩

theorem thrownIs (type : ThrownType V) (id : FailureId) :
    Oblivious (Argument.thrownIs type id : Quiet V σ Bool) :=
  seq (valueFor .thrown id.raw) fun _ => still _

theorem presentNames (id : FailureId) (keys : List (Key V)) :
    Oblivious (Argument.presentNames id keys : Quiet V σ (List String)) := by
  induction keys with
  | nil => exact still []
  | cons key rest ih => exact seq (holds key id.raw) fun _ => seq ih fun _ => still _

theorem takeThrown (type : ThrownType V) (id : FailureId) :
    Oblivious (Argument.takeThrown type id : Quiet V σ (Option (Thrown V))) := by
  refine seq (takeFor .thrown id.raw) fun found => ?_
  cases found with
  | none => exact still none
  | some object =>
      by_cases typed : object.hasType type = true
      · simp only [typed, if_true]
        exact still (some object)
      · simp only [typed]
        exact seq (seq (record .thrown object id) fun _ => still ()) fun _ => still none

theorem discard (reading : Reading V) : Oblivious (reading.discard : Quiet V σ Unit) := by
  match reading with
  | .take key value => exact release key value
  | .optional (some inner) => exact discard inner
  | .optional none | .copy .. | .thrown _ | .message _ | .summary .. | .report _ | .custom _ =>
      exact still ()

theorem discardAll (readings : List (Reading V)) :
    Oblivious (readings.forM Reading.discard : Quiet V σ Unit) := by
  induction readings with
  | nil => exact still ()
  | cons reading rest ih => exact seq (discard reading) fun _ => ih

structure Customs (V : Vocabulary) (σ : Type) [Discreet V σ] : Prop where
  available : ∀ argument case, Oblivious (Host.available argument case : Quiet V σ Bool)
  produced : ∀ argument, Oblivious (Host.produced argument : Quiet V σ (Option V.Product))

variable (customs : Customs V σ)
include customs

theorem available (argument : Argument V) (case : Case V) :
    Oblivious (argument.available case : Quiet V σ Bool) := by
  cases argument with
  | take key | copy key => exact holds key case.id.raw
  | optional | summary | report => exact still true
  | thrown type => exact thrownIs type case.id
  | message => exact seq (seq (valueFor .thrown case.id.raw) fun _ => still _) fun _ => still _
  | custom argument => exact customs.available argument case

theorem produce (argument : Argument V) (case : Case V) :
    Oblivious (argument.produce case : Quiet V σ (Option (Reading V))) := by
  induction argument with
  | take key => exact seq (takeFor key case.id.raw) fun _ => still _
  | copy key => exact seq (valueFor key case.id.raw) fun _ => still _
  | optional inner ih =>
      refine seq (available customs inner case) fun found => ?_
      cases found with
      | true => exact seq ih fun _ => still _
      | false => exact still _
  | thrown type => exact seq (takeThrown type case.id) fun _ => still _
  | message => exact seq (seq (valueFor .thrown case.id.raw) fun _ => still _) fun _ => still _
  | summary => exact seq (holds .thrown case.id.raw) fun _ => still _
  | report =>
      exact seq (seq (presentNames case.id _) fun _ => seq (holds .thrown case.id.raw) fun _ =>
        seq (valueFor .tally case.id.raw) fun _ => still _) fun _ => still _
  | custom argument => exact seq (customs.produced argument) fun _ => still _

theorem produceSome (places : List (Arguments.Place V)) (case : Case V) (taking : Bool) :
    Oblivious (Arguments.produceSome case taking places : Quiet V σ _) := by
  induction places with
  | nil => exact still _
  | cons place rest ih =>
      unfold Arguments.produceSome
      split
      · refine seq (produce customs place.1 case) fun reading => ?_
        cases reading with
        | none => exact still _
        | some reading => exact seq ih fun _ => still _
      · exact seq ih fun _ => still _

theorem produceAll (arguments : List (Argument V)) (case : Case V) :
    Oblivious (Arguments.produce case arguments : Quiet V σ (Option (List (Reading V)))) := by
  refine seq (produceSome customs _ case false) fun read => ?_
  obtain ⟨complete, partly⟩ := read
  have finish : ∀ taken : Bool × List (Arguments.Place V),
      Oblivious (if taken.1 then Pure.pure (some (taken.2.filterMap Prod.snd)) else do
        (taken.2.filterMap Prod.snd).forM Reading.discard
        Pure.pure none : Quiet V σ (Option (List (Reading V)))) := by
    intro taken
    split
    · exact still _
    · exact seq (discardAll _) fun _ => still none
  cases complete with
  | true => exact seq (produceSome customs partly case true) finish
  | false => exact seq (still (false, partly)) finish

theorem availableAll (arguments : List (Argument V)) (case : Case V) :
    Oblivious (Arguments.available case arguments : Quiet V σ Bool) := by
  induction arguments with
  | nil => exact still true
  | cons argument rest ih =>
      refine seq (available customs argument case) fun found => ?_
      cases found with
      | true => exact ih
      | false => exact still false

omit customs in
theorem test {condition : Condition V σ} {id : FailureId}
    (tests : ∀ key test, condition = .holds key test → ∀ value, Oblivious (test value)) :
    Oblivious (condition.test id) := by
  cases condition with
  | holds key test => exact bind (lend id.raw (tests key test rfl)) fun _ => pure _
  | thrown type => exact quietly (thrownIs type id)

omit customs in
theorem testAll {conditions : List (Condition V σ)} {id : FailureId}
    (tests : ∀ condition ∈ conditions, Oblivious (condition.test id)) :
    Oblivious (Condition.testAll id conditions) := by
  induction conditions with
  | nil => exact pure true
  | cons condition rest ih =>
      obtain ⟨own, others⟩ := List.forall_mem_cons.1 tests
      refine bind own fun held => ?_
      cases held with
      | true => exact ih others
      | false => exact pure false

theorem accepts {ρ : Type} {handler : Handler V σ ρ}
    (tests : ∀ condition ∈ handler.conditions, Oblivious (condition.test case.id)) :
    Oblivious (handler.accepts case) := by
  refine bind (quietly (availableAll customs handler.arguments case)) fun found => ?_
  cases found with
  | true => exact testAll tests
  | false => exact pure false

theorem answer {ρ : Type} {handler : Handler V σ ρ}
    (responds : ∀ readings, Oblivious (handler.respond readings)) :
    Oblivious (handler.answer? case) := by
  refine bind (quietly (produceAll customs handler.arguments case)) fun produced => ?_
  cases produced with
  | none => exact pure none
  | some readings => exact bind (responds readings) fun _ => pure _

end Handlers

theorem dispatchFrom {ρ : Type} {case : Case V} {handlers : List (Handler V σ ρ)}
    (accepts : ∀ handler ∈ handlers, Oblivious (handler.accepts case))
    (answers : ∀ handler ∈ handlers, Oblivious (handler.answer? case)) (index : Nat) :
    Oblivious (dispatchFrom case index handlers) := by
  induction handlers generalizing index with
  | nil => exact bind (quietly (emit _)) fun _ => pure _
  | cons handler rest ih =>
      obtain ⟨asked, others⟩ := List.forall_mem_cons.1 accepts
      obtain ⟨answered, later⟩ := List.forall_mem_cons.1 answers
      refine bind asked fun accepted => ?_
      cases accepted with
      | false => exact ih others later (index + 1)
      | true =>
          refine bind (quietly (emit _)) fun _ => bind answered fun answer => ?_
          cases answer with
          | some value => exact pure _
          | none => exact unwind _

theorem handleAll {body : Act V σ (Except FailureId α)} {total : TotalChain V σ α}
    (runs : Oblivious body) (handles : ∀ id, Oblivious (total.chain.dispatch id)) :
    Oblivious (handleAll body total) := by
  refine during _ (bind runs fun ended => ?_)
  cases ended with
  | ok value => exact pure value
  | error id =>
      refine bind (handles id) fun outcome => ?_
      cases outcome with
      | handled value => exact pure value
      | unmatched id => exact unwind _

theorem handleSome {body : Act V σ (Except FailureId α)} {chain : Chain V σ (Except FailureId α)}
    (runs : Oblivious body) (handles : ∀ id, Oblivious (chain.dispatch id)) :
    Oblivious (handleSome body chain) := by
  refine during _ (bind runs fun ended => ?_)
  cases ended with
  | ok value => exact pure _
  | error id =>
      refine bind (handles id) fun outcome => ?_
      cases outcome with
      | handled value => exact pure value
      | unmatched id => exact pure _

end Oblivious

end FaultRelay

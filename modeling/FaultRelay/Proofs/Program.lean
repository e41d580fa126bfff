import FaultRelay.Guard
import FaultRelay.Handler.Block
import FaultRelay.Parcel
import FaultRelay.Spawn
import FaultRelay.Proofs.ArgumentMeaning
import FaultRelay.Proofs.Outline

/-! Programs that are made of operations of the library and of computations of their own. A program
has scopes to leave when it starts. When it returns, it says which are left to its caller; when it
unwinds, it has left them all. Guards, records, captures and handling blocks are programs if what
the application puts into them is. -/
namespace FaultRelay

variable {V : Vocabulary} {σ α β : Type}

/-- Looks at the outline of the stack and at the pair of the innermost frame, and changes that pair
and nothing else. -/
def Stack.touch {α β : Type} (answer : List (Token × Nat) → Option (Nat × α) → β)
    (change : Option (Nat × α) → Option (Nat × α)) (stack : Stack α) : β × Stack α :=
  (answer stack.outline (stack.top?.bind Frame.held),
    stack.onTop fun top => { top with held := change top.held })

namespace Slot

def touch (key : Key V) (answer : List (Token × Nat) → Option (Nat × key.Value) → β)
    (change : Option (Nat × key.Value) → Option (Nat × key.Value)) : Quiet V σ β :=
  onStack key (Stack.touch answer change)

def tagged {α : Type} (id : Nat) (held : Option (Nat × α)) : Option α :=
  if held.map Prod.fst == some id then held.map Prod.snd else none

theorem onTop_same {α : Type} {edit : Frame α → Frame α} (same : ∀ frame, edit frame = frame)
    (stack : Stack α) : stack.onTop edit = stack := by
  obtain ⟨_ | ⟨top, below⟩⟩ := stack
  · rfl
  · rw [Stack.onTop, same]

theorem look_eq_touch {key : Key V} {look : Stack key.Value → β}
    {answer : List (Token × Nat) → Option (Nat × key.Value) → β}
    (same : ∀ stack, look stack = answer stack.outline (stack.top?.bind Frame.held)) :
    (return look (← stack key) : Quiet V σ β) = touch key answer id := by
  funext world
  have unchanged : (world.thread.stack key).onTop (fun top => { top with held := id top.held }) =
      world.thread.stack key := onTop_same (fun _ => rfl) _
  rw [touch, onStack_apply, Stack.touch, unchanged, Thread.setStack_self, ← same]
  rfl

theorem put_eq_touch (key : Key V) (id : Nat) (value : key.Value) :
    (put key id value : Quiet V σ _) =
      touch key (fun outline held =>
        if outline.isEmpty then .rejected value else .stored (held.map Prod.snd))
        fun _ => some (id, value) := by
  unfold put touch
  congr 1
  funext stack
  obtain ⟨_ | ⟨top, below⟩⟩ := stack <;> rfl

theorem takeFor_eq_touch (key : Key V) (id : Nat) :
    (takeFor key id : Quiet V σ _) =
      touch key (fun _ => tagged id)
        fun held => if held.map Prod.fst == some id then none else held := by
  unfold takeFor touch
  congr 1
  funext stack
  obtain ⟨_ | ⟨⟨owner, refs, held⟩, below⟩⟩ := stack
  · rfl
  · by_cases here : held.map Prod.fst == some id
    · simp [Stack.takeFor, Stack.touch, Stack.valueFor, Stack.top?, Stack.onTop, Frame.valueFor,
        Frame.without, Frame.holds, Frame.id, Frame.value?, Frame.cleared, tagged, here]
    · simp [Stack.takeFor, Stack.touch, Stack.valueFor, Stack.top?, Stack.onTop, Frame.valueFor,
        Frame.without, Frame.holds, Frame.id, tagged, here]

theorem valueFor_eq_touch (key : Key V) (id : Nat) :
    (valueFor key id : Quiet V σ _) = touch key (fun _ => tagged id) fun held => held := by
  refine look_eq_touch fun stack => ?_
  obtain ⟨_ | ⟨top, below⟩⟩ := stack <;> rfl

theorem isOpen_eq_touch (key : Key V) :
    (isOpen key : Quiet V σ Bool) = touch key (fun outline _ => !outline.isEmpty) fun held => held :=
  look_eq_touch fun stack => stack.isOpen_eq_outline

theorem depth_eq_touch (key : Key V) :
    (depth key : Quiet V σ Nat) = touch key (fun outline _ => outline.length) fun held => held :=
  look_eq_touch fun stack => stack.depth_eq_length

theorem topId?_eq_touch (key : Key V) :
    (topId? key : Quiet V σ (Option Nat)) =
      touch key (fun _ held => held.map Prod.fst) fun held => held := by
  refine look_eq_touch fun stack => ?_
  obtain ⟨_ | ⟨top, below⟩⟩ := stack <;> rfl

theorem editTop_eq_touch (key : Key V)
    (change : Option (Nat × key.Value) → Option (Nat × key.Value)) :
    (editTop key change : Quiet V σ Bool) =
      touch key (fun outline _ => !outline.isEmpty) change := by
  unfold editTop touch
  congr 1
  funext stack
  rw [Stack.touch, stack.isOpen_eq_outline]

end Slot

/-- A computation of the application. -/
def Quiet.own (change : σ → α × σ) : Quiet V σ α := fun world =>
  ((change world.host).1, { world with host := (change world.host).2 })

/-- What a program may look at and decide. -/
structure Range (V : Vocabulary) (σ : Type) where
  slot : Key V → Prop
  own : {α : Type} → (σ → α × σ) → Prop
  adopts : Prop
  asks : Prop

def Range.all : Range V σ := ⟨fun _ => True, fun _ => True, True, True⟩

/-- Single steps. Those of the host are up to the application. -/
inductive Primitive [Host V σ] (range : Range V σ) : {α : Type} → Quiet V σ α → Prop
  | own {α : Type} {change : σ → α × σ} (within : range.own change) :
      Primitive range (Quiet.own change)
  | emit (event : Event) : Primitive range (emit event)
  | touch {key : Key V} {β : Type} (within : range.slot key)
      (answer : List (Token × Nat) → Option (Nat × key.Value) → β)
      (change : Option (Nat × key.Value) → Option (Nat × key.Value)) :
      Primitive range (Slot.touch key answer change)
  | mint : Primitive range FailureId.mint
  | reserve : Primitive range FailureId.reserve
  | current : Primitive range FailureId.current
  | tallying : Primitive range tallying
  | inForce : Primitive range Settings.inForce
  | adopt (within : range.adopts) (settings : Settings) : Primitive range settings.adopt
  | unwinding (within : range.asks) : Primitive range Guard.unwinding
  | destroy (kind : V.Kind) (value : V.Value kind) : Primitive range (Host.destroy kind value)
  | declared (argument : V.Custom) (count : Nat) : Primitive range (Host.declared argument count)
  | available (argument : V.Custom) (case : Case V) :
      Primitive range (Host.available argument case)
  | produced (argument : V.Custom) : Primitive range (Host.produced argument)

/-- Steps in a row. What comes later depends on what the earlier ones can answer. -/
inductive Routine [Host V σ] (range : Range V σ) : {α : Type} → Quiet V σ α → Prop
  | step {α : Type} {act : Quiet V σ α} (primitive : Primitive range act) : Routine range act
  | still {α : Type} (value : α) : Routine range (pure value)
  | follow {α β : Type} {act : Quiet V σ α} {next : α → Quiet V σ β} (first : Routine range act)
      (later : ∀ value, (∃ world, (act world).1 = value) → Routine range (next value)) :
      Routine range (act >>= next)

def Except.leaves {ε : Type} (left : α → List (OpenScope V)) : Except ε α → List (OpenScope V)
  | .ok value => left value
  | .error _ => []

def Option.leaves (held : List (OpenScope V)) (left : α → List (OpenScope V)) :
    Option α → List (OpenScope V)
  | some answer => left answer
  | none => held

/-- `act` starts with the scopes in `held` to leave, and what it returns has those in `left`. -/
inductive Program [Host V σ] (range : Range V σ) :
    {α : Type} → List (OpenScope V) → Act V σ α → (α → List (OpenScope V)) → Prop
  | quiet {α : Type} {held : List (OpenScope V)} {act : Quiet V σ α} (routine : Routine range act) :
      Program range held (quietly act) fun _ => held
  | still {α : Type} {left : α → List (OpenScope V)} (value : α) :
      Program range (left value) (pure value) left
  | follow {α β : Type} {held : List (OpenScope V)} {middle : α → List (OpenScope V)}
      {left : β → List (OpenScope V)} {act : Act V σ α} {next : α → Act V σ β}
      (first : Program range held act middle)
      (later : ∀ value, (∃ world, (act world).1 = .ok value) →
        Program range (middle value) (next value) left) :
      Program range held (act >>= next) left
  | unwind {α : Type} {left : α → List (OpenScope V)} (object : Thrown V) :
      Program range [] (Act.unwind object) left
  | attempt {α : Type} {held : List (OpenScope V)} {left : α → List (OpenScope V)} {act : Act V σ α}
      (body : Program range held act left) : Program range held act.attempt (Except.leaves left)
  | cleanup {α : Type} {held more : List (OpenScope V)} {left : α → List (OpenScope V)}
      {act : Act V σ α} {clean : Act V σ Unit} (body : Program range held act left)
      (cleaning : Program range more clean fun _ => []) :
      Program range (held ++ more) (act.onUnwinding clean) fun value => left value ++ more
  | enter {held : List (OpenScope V)} (scope : Scope V) :
      Program range held (quietly scope.enter) fun active => active :: held
  | leave {held : List (OpenScope V)} (active : OpenScope V) :
      Program range (active :: held) (quietly active.leave) fun _ => held
  | lend {α : Type} {held : List (OpenScope V)} {left : α → List (OpenScope V)} {key : Key V}
      {use : key.Value → Act V σ α} (within : range.slot key) (id : Nat)
      (uses : ∀ value, Program range held (use value) left) :
      Program range held (Slot.lend key id use) (Option.leaves held left)
  | spawn {α : Type} {held : List (OpenScope V)} {left : α → List (OpenScope V)} {act : Act V σ α}
      (runs : Program range [] act left) : Program range held (spawn act) fun _ => held
  | perm {α : Type} {held held' : List (OpenScope V)} {left left' : α → List (OpenScope V)}
      {act : Act V σ α} (program : Program range held act left) (given : held.Perm held')
      (returned : ∀ value, (left value).Perm (left' value)) : Program range held' act left'

section Everything

variable [Host V σ] {range : Range V σ}

theorem Primitive.all {act : Quiet V σ α} (primitive : Primitive range act) : Primitive .all act := by
  cases primitive with
  | own => exact .own trivial
  | emit event => exact .emit event
  | touch _ answer change => exact .touch trivial answer change
  | mint => exact .mint
  | reserve => exact .reserve
  | current => exact .current
  | tallying => exact .tallying
  | inForce => exact .inForce
  | adopt _ settings => exact .adopt trivial settings
  | unwinding => exact .unwinding trivial
  | destroy kind value => exact .destroy kind value
  | declared argument count => exact .declared argument count
  | available argument case => exact .available argument case
  | produced argument => exact .produced argument

theorem Routine.all {act : Quiet V σ α} (routine : Routine range act) : Routine .all act := by
  induction routine with
  | step primitive => exact .step primitive.all
  | still value => exact .still value
  | follow _ _ first later => exact .follow first later

theorem Program.all {held : List (OpenScope V)} {act : Act V σ α} {left : α → List (OpenScope V)}
    (program : Program range held act left) : Program .all held act left := by
  induction program with
  | quiet routine => exact .quiet routine.all
  | still value => exact .still value
  | follow _ _ first later => exact .follow first later
  | unwind object => exact .unwind object
  | attempt _ body => exact .attempt body
  | cleanup _ _ body cleaning => exact .cleanup body cleaning
  | enter scope => exact .enter scope
  | leave active => exact .leave active
  | lend _ id _ uses => exact .lend trivial id uses
  | spawn _ runs => exact .spawn runs
  | perm _ given returned body => exact .perm body given returned

end Everything

namespace Routine

variable [Host V σ] {range : Range V σ}

theorem seq {act : Quiet V σ α} {next : α → Quiet V σ β} (first : Routine range act)
    (later : ∀ value, Routine range (next value)) : Routine range (act >>= next) :=
  follow first fun value _ => later value

section Slots

variable {key : Key V} (within : range.slot key)
include within

theorem put (id : Nat) (value : key.Value) : Routine range (Slot.put key id value : Quiet V σ _) := by
  rw [Slot.put_eq_touch]
  exact step (.touch within _ _)

theorem takeFor (id : Nat) : Routine range (Slot.takeFor key id : Quiet V σ _) := by
  rw [Slot.takeFor_eq_touch]
  exact step (.touch within _ _)

theorem valueFor (id : Nat) : Routine range (Slot.valueFor key id : Quiet V σ _) := by
  rw [Slot.valueFor_eq_touch]
  exact step (.touch within _ _)

theorem isOpen : Routine range (Slot.isOpen key : Quiet V σ Bool) := by
  rw [Slot.isOpen_eq_touch]
  exact step (.touch within _ _)

theorem depth : Routine range (Slot.depth key : Quiet V σ Nat) := by
  rw [Slot.depth_eq_touch]
  exact step (.touch within _ _)

theorem holds (id : Nat) : Routine range (Slot.holds key id : Quiet V σ Bool) := by
  unfold Slot.holds
  rw [Slot.topId?_eq_touch]
  exact seq (step (.touch within _ _)) fun _ => still _

theorem editTop (change : Option (Nat × key.Value) → Option (Nat × key.Value)) :
    Routine range (Slot.editTop key change : Quiet V σ Bool) := by
  rw [Slot.editTop_eq_touch]
  exact step (.touch within _ _)

end Slots

theorem release (key : Key V) (value : key.Value) :
    Routine range (release key value : Quiet V σ Unit) := by
  cases key with
  | app kind => exact step (.destroy kind value)
  | tally | thrown => exact still ()

theorem releaseAll (payloads : List (Payload V)) :
    Routine range (releaseAll payloads : Quiet V σ Unit) := by
  induction payloads with
  | nil => exact still ()
  | cons payload rest ih => exact seq (release payload.key payload.value) fun _ => ih

section Recording

variable (tallies : range.slot .tally)
include tallies

theorem noteStray (key : Key V) (id : FailureId) :
    Routine range (noteStray key id : Quiet V σ Unit) := by
  refine seq (step (.emit _)) fun _ => seq (step .tallying) fun counts => ?_
  cases counts with
  | false => exact still ()
  | true => exact seq (editTop tallies _) fun _ => still ()

theorem record {key : Key V} (within : range.slot key) (value : key.Value) (id : FailureId) :
    Routine range (record key value id : Quiet V σ Bool) := by
  refine seq (put within id.raw value) fun stored => ?_
  cases stored with
  | stored previous =>
      cases previous with
      | none => exact still true
      | some value => exact seq (release key value) fun _ => still true
  | rejected value =>
      exact seq (release key value) fun _ => seq (noteStray tallies key id) fun _ => still false

theorem recordAll {payloads : List (Payload V)}
    (within : ∀ payload ∈ payloads, range.slot payload.key) (id : FailureId) :
    Routine range (recordAll payloads id : Quiet V σ Unit) := by
  induction payloads with
  | nil => exact still ()
  | cons payload rest ih =>
      obtain ⟨own, others⟩ := List.forall_mem_cons.1 within
      exact seq (seq (record tallies own payload.value id) fun _ => still ()) fun _ => ih others

theorem newFailure {payloads : List (Payload V)}
    (within : ∀ payload ∈ payloads, range.slot payload.key) :
    Routine range (newFailure payloads : Quiet V σ FailureId) :=
  seq (step .mint) fun id => seq (recordAll tallies within id) fun _ => still id

theorem keep (thrown : range.slot .thrown) (object : Thrown V) :
    Routine range (object.keep : Quiet V σ FailureId) := by
  have identified : Routine range (object.identify : Quiet V σ FailureId) := by
    unfold Thrown.identify
    split
    · exact still _
    · exact step .mint
  exact seq identified fun id => seq (step (.emit _)) fun _ =>
    seq (seq (record tallies thrown object id) fun _ => still ()) fun _ => still id

theorem unpack {parcel : Parcel V} (within : ∀ payload ∈ parcel.payloads, range.slot payload.key) :
    Routine range (parcel.unpack : Quiet V σ FailureId) :=
  seq (step (.emit _)) fun _ => seq (recordAll tallies within parcel.id) fun _ => still parcel.id

end Recording

theorem collect (id : FailureId) {keys : List (Key V)} (within : ∀ key ∈ keys, range.slot key) :
    Routine range (Parcel.collect id keys : Quiet V σ (List (Payload V))) := by
  induction keys with
  | nil => exact still []
  | cons key rest ih =>
      obtain ⟨own, others⟩ := List.forall_mem_cons.1 within
      refine seq (takeFor own id.raw) fun taken => seq (ih others) fun later => ?_
      cases taken with
      | none => exact still _
      | some value => exact still _

section Guards

variable {κ : Key V → Type} (asks : range.asks)
include asks

theorem arm (context : Context V κ) : Routine range (Guard.arm context : Quiet V σ (Guard V κ)) :=
  seq (step .current) fun _ => seq (step (.unwinding asks)) fun _ => still _

theorem target (guard : Guard V κ) :
    Routine range (guard.target : Quiet V σ (Option FailureId)) := by
  refine seq (step .current) fun id => ?_
  split
  · exact still id
  · refine seq (step (.unwinding asks)) fun unwinds => ?_
    split
    · exact seq (step .reserve) fun id => still (some id)
    · exact still none

omit asks in
theorem dismiss (guard : Guard V κ) : Routine range (guard.dismiss : Quiet V σ Unit) := by
  obtain ⟨context, baseline, wasUnwinding⟩ := guard
  cases context with
  | deferred => exact still ()
  | prepared payloads => exact releaseAll payloads

end Guards

end Routine

def Context.keys {κ : Key V → Type} : Context V κ → List (Key V)
  | .prepared payloads => payloads.map Payload.key
  | .deferred key _ => [key]

def Argument.slots (interest : Interest V) : Argument V → List (Key V)
  | take key | copy key => [key]
  | optional inner => inner.slots interest
  | thrown _ | message | summary => [.thrown]
  | report => .thrown :: interest.keys
  | custom _ => []

namespace Routine

variable [Host V σ] {range : Range V σ} (tallies : range.slot .tally)

theorem announce (before : Interest V) (arguments : List (Argument V)) :
    Routine range (Arguments.announce before arguments : Quiet V σ Unit) := by
  have single : ∀ (count : Nat) (argument : Argument V),
      Routine range (argument.announce count : Quiet V σ Unit) := by
    intro count argument
    induction argument with
    | custom argument => exact step (.declared argument count)
    | optional inner ih => exact ih
    | take | copy | thrown | message | summary | report => exact still ()
  induction arguments generalizing before with
  | nil => exact still ()
  | cons argument rest ih => exact seq (single _ argument) fun _ => ih _

theorem presentNames (id : FailureId) {keys : List (Key V)} (within : ∀ key ∈ keys, range.slot key) :
    Routine range (Argument.presentNames id keys : Quiet V σ (List String)) := by
  induction keys with
  | nil => exact still []
  | cons key rest ih =>
      obtain ⟨own, others⟩ := List.forall_mem_cons.1 within
      exact seq (holds own id.raw) fun _ => seq (ih others) fun _ => still _

theorem discard (reading : Reading V) : Routine range (reading.discard : Quiet V σ Unit) := by
  match reading with
  | .take key value => exact release key value
  | .optional (some inner) => exact discard inner
  | .optional none | .copy .. | .thrown _ | .message _ | .summary .. | .report _ | .custom _ =>
      exact still ()

theorem discardAll (readings : List (Reading V)) :
    Routine range (readings.forM Reading.discard : Quiet V σ Unit) := by
  induction readings with
  | nil => exact still ()
  | cons reading rest ih => exact seq (discard reading) fun _ => ih

theorem thrownIs (thrown : range.slot .thrown) (type : ThrownType V) (id : FailureId) :
    Routine range (Argument.thrownIs type id : Quiet V σ Bool) :=
  seq (valueFor thrown id.raw) fun _ => still _

theorem available {argument : Argument V} {case : Case V}
    (within : ∀ key ∈ argument.slots case.interest, range.slot key) :
    Routine range (argument.available case : Quiet V σ Bool) := by
  cases argument with
  | take key | copy key => exact holds (within key List.mem_cons_self) case.id.raw
  | optional | summary | report => exact still true
  | thrown type => exact thrownIs (within .thrown List.mem_cons_self) type case.id
  | message =>
      exact seq (seq (valueFor (within .thrown List.mem_cons_self) case.id.raw) fun _ => still _)
        fun _ => still _
  | custom argument => exact step (.available argument case)

include tallies

theorem takeThrown (thrown : range.slot .thrown) (type : ThrownType V) (id : FailureId) :
    Routine range (Argument.takeThrown type id : Quiet V σ (Option (Thrown V))) := by
  refine seq (takeFor thrown id.raw) fun found => ?_
  cases found with
  | none => exact still none
  | some object =>
      by_cases typed : object.hasType type = true
      · simp only [typed, if_true]
        exact still (some object)
      · simp only [typed]
        exact seq (seq (record tallies thrown object id) fun _ => still ()) fun _ => still none

theorem produce {argument : Argument V} {case : Case V}
    (within : ∀ key ∈ argument.slots case.interest, range.slot key) :
    Routine range (argument.produce case : Quiet V σ (Option (Reading V))) := by
  induction argument with
  | take key => exact seq (takeFor (within key List.mem_cons_self) case.id.raw) fun _ => still _
  | copy key => exact seq (valueFor (within key List.mem_cons_self) case.id.raw) fun _ => still _
  | optional inner ih =>
      refine seq (@available _ _ _ _ inner _ within) fun found => ?_
      cases found with
      | true => exact seq (ih within) fun _ => still _
      | false => exact still _
  | thrown type =>
      exact seq (takeThrown tallies (within .thrown List.mem_cons_self) type case.id) fun _ => still _
  | message =>
      exact seq (seq (valueFor (within .thrown List.mem_cons_self) case.id.raw) fun _ => still _)
        fun _ => still _
  | summary => exact seq (holds (within .thrown List.mem_cons_self) case.id.raw) fun _ => still _
  | report =>
      have present : ∀ key ∈ case.interest.keys.filter fun key => !key.isInternal, range.slot key :=
        fun key listed => within key (List.mem_cons_of_mem _ (List.mem_filter.1 listed).1)
      exact seq (seq (presentNames case.id present) fun _ =>
        seq (holds (within .thrown List.mem_cons_self) case.id.raw) fun _ =>
        seq (valueFor tallies case.id.raw) fun _ => still _) fun _ => still _
  | custom argument => exact seq (step (.produced argument)) fun _ => still _

theorem produceSome {places : List (Arguments.Place V)} {case : Case V}
    (within : ∀ place ∈ places, ∀ key ∈ place.1.slots case.interest, range.slot key)
    (taking : Bool) : Routine range (Arguments.produceSome case taking places : Quiet V σ _) := by
  induction places with
  | nil => exact still _
  | cons place rest ih =>
      obtain ⟨own, others⟩ := List.forall_mem_cons.1 within
      unfold Arguments.produceSome
      split
      · refine seq (produce tallies own) fun reading => ?_
        cases reading with
        | none => exact still _
        | some reading => exact seq (ih others) fun _ => still _
      · exact seq (ih others) fun _ => still _

omit tallies in
theorem places_produceSome (case : Case V) (taking : Bool) (places : List (Arguments.Place V))
    (world : World V σ) :
    (Arguments.produceSome case taking places world).1.2.map Prod.fst = places.map Prod.fst := by
  induction places generalizing world with
  | nil => rfl
  | cons place rest ih =>
      obtain ⟨argument, reading⟩ := place
      rw [Arguments.produceSome_cons]
      split
      · rcases argument.produce case world with ⟨_ | produced, later⟩
        · rfl
        · simp only [List.map_cons, ih]
      · simp only [List.map_cons, ih]

theorem produceAll {arguments : List (Argument V)} {case : Case V}
    (within : ∀ argument ∈ arguments, ∀ key ∈ argument.slots case.interest, range.slot key) :
    Routine range (Arguments.produce case arguments : Quiet V σ (Option (List (Reading V)))) := by
  have produces : ∀ {places : List (Arguments.Place V)} (taking : Bool),
      places.map Prod.fst = arguments →
        Routine range (Arguments.produceSome case taking places : Quiet V σ _) :=
    fun taking same => produceSome tallies
      (fun place listed => within place.1 (same ▸ List.mem_map_of_mem listed)) taking
  have bare : (arguments.map fun argument => ((argument, none) : Arguments.Place V)).map Prod.fst =
      arguments := by simp [Function.comp_def]
  have finish : ∀ taken : Bool × List (Arguments.Place V),
      Routine range (if taken.1 then Pure.pure (some (taken.2.filterMap Prod.snd)) else do
        (taken.2.filterMap Prod.snd).forM Reading.discard
        Pure.pure none : Quiet V σ (Option (List (Reading V)))) := by
    intro taken
    split
    · exact still _
    · exact seq (discardAll _) fun _ => still none
  refine follow (produces false bare) fun read answered => ?_
  obtain ⟨world, rfl⟩ := answered
  have same := (places_produceSome case false _ world).trans bare
  revert same
  rcases (Arguments.produceSome case false _ world).1 with ⟨_ | _, partly⟩ <;> intro same
  · exact seq (still (false, partly)) finish
  · exact seq (produces true same) finish

omit tallies in
theorem availableAll {arguments : List (Argument V)} {case : Case V}
    (within : ∀ argument ∈ arguments, ∀ key ∈ argument.slots case.interest, range.slot key) :
    Routine range (Arguments.available case arguments : Quiet V σ Bool) := by
  induction arguments with
  | nil => exact still true
  | cons argument rest ih =>
      obtain ⟨own, others⟩ := List.forall_mem_cons.1 within
      refine seq (available own) fun found => ?_
      cases found with
      | true => exact ih others
      | false => exact still false

end Routine

namespace Program

variable [Host V σ] {range : Range V σ} {held more : List (OpenScope V)}

section Combinators

variable {act : Act V σ α} {left : α → List (OpenScope V)}

theorem just (value : α) : Program range held (pure value) fun _ => held :=
  @still _ _ _ _ _ (fun _ => held) value

theorem bind {middle : α → List (OpenScope V)} {left : β → List (OpenScope V)}
    {next : α → Act V σ β} (first : Program range held act middle)
    (later : ∀ value, Program range (middle value) (next value) left) :
    Program range held (act >>= next) left :=
  follow first fun value _ => later value

theorem map (change : α → β) (program : Program range held act fun _ => more) :
    Program range held (change <$> act) fun _ => more := by
  rw [map_eq_pure_bind]
  exact bind program fun value => just (change value)

theorem ensuring {after : Act V σ Unit} (body : Program range held act fun _ => [])
    (cleaning : Program range more after fun _ => []) :
    Program range (held ++ more) (act.ensuring after) fun _ => [] :=
  bind (cleanup body cleaning) fun value =>
    bind cleaning fun _ => just value

/-- The scope that was entered is left by the block, and by nobody else. -/
theorem during (scope : Scope V) {body : OpenScope V → Act V σ α}
    (inside : ∀ active, Program range held (body active) fun _ => []) :
    Program range held (scope.during body) fun _ => [] := by
  refine bind (enter scope) fun active => ?_
  refine perm (ensuring (inside active) (@leave _ _ _ _ [] active)) ?_ fun _ => .refl _
  exact List.perm_append_singleton active held

end Combinators

theorem raise (id : FailureId) : Program range [] (id.raise : Act V σ α) fun _ => [] :=
  bind (quiet (.step (.emit _))) fun _ => unwind _

section Guards

variable {κ : Key V → Type} {run : (key : Key V) → κ key → Act V σ key.Value}
  (tallies : range.slot .tally)

include tallies

theorem fire {context : Context V κ} (within : ∀ key ∈ context.keys, range.slot key)
    (runs : ∀ key code, Program range [] (run key code) fun _ => []) (id : FailureId) :
    Program range [] (Guard.fire run context id) fun _ => [] := by
  cases context with
  | prepared payloads =>
      exact quiet (.recordAll tallies (fun payload listed =>
        within payload.key (List.mem_map_of_mem listed)) id)
  | deferred key code =>
      have own := within key List.mem_cons_self
      refine bind (quiet (.isOpen own)) fun isOpen => ?_
      cases isOpen with
      | true =>
          exact bind (runs key code) fun value =>
            bind (quiet (.record tallies own value id)) fun _ => just ()
      | false => exact quiet (.noteStray tallies key id)

theorem drop (asks : range.asks) {guard : Guard V κ}
    (within : ∀ key ∈ guard.context.keys, range.slot key)
    (runs : ∀ key code, Program range [] (run key code) fun _ => []) :
    Program range [] (guard.drop run) fun _ => [] := by
  refine bind (quiet (.target asks guard)) fun found => ?_
  cases found with
  | none => exact quiet (.dismiss guard)
  | some id => exact fire tallies within runs id

end Guards

theorem pack {keys : List (Key V)} (within : ∀ key ∈ keys, range.slot key)
    {body : Act V σ (Except FailureId α)} (runs : Program range [] body fun _ => []) :
    Program range [] (Parcel.pack keys body) fun _ => [] := by
  refine during _ fun _ => bind runs fun ended => ?_
  cases ended with
  | ok value => exact just _
  | error id =>
      exact bind (quiet (.collect id within)) fun _ => just _

end Program

end FaultRelay

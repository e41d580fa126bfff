import FaultRelay.Handler.Basic
import FaultRelay.Proofs.ThreadStacks
import Mathlib.Data.List.Basic

/-! What the arguments of the library mean: each is a function of the slots at one moment. Producing
it then answers with its meaning and takes the value it owns out of its slot, and nothing else; an
argument that takes out of another slot does not notice. -/
namespace FaultRelay

variable {V : Vocabulary} {σ : Type}

theorem Stack.topId?_eq {α : Type} (stack : Stack α) (id : Nat) :
    (stack.topId? == some id) = (stack.valueFor id).isSome := by
  obtain ⟨_ | ⟨⟨owner, refs, _ | ⟨tag, value⟩⟩, below⟩⟩ := stack
  · rfl
  · rfl
  · by_cases same : tag = id <;>
      simp [topId?, top?, valueFor, Frame.valueFor, Frame.holds, Frame.id, Frame.value?, same]

theorem Stack.takeFor_takeFor {α : Type} (stack : Stack α) (id : Nat) :
    ((stack.takeFor id).2.takeFor id).2 = (stack.takeFor id).2 := by
  obtain ⟨_ | ⟨⟨owner, refs, _ | ⟨tag, value⟩⟩, below⟩⟩ := stack
  · rfl
  · rfl
  · by_cases same : tag = id <;>
      simp [takeFor, onTop, Frame.without, Frame.holds, Frame.id, Frame.cleared, same]

def Reading.payloads : Reading V → List (Payload V)
  | take key value => [⟨key, value⟩]
  | thrown object => [⟨.thrown, object⟩]
  | optional (some inner) => inner.payloads
  | optional none | copy _ _ | message _ | summary _ _ | report _ | custom _ => []

def Arguments.payloads (readings : List (Reading V)) : List (Payload V) :=
  readings.flatMap Reading.payloads

def Reading.moved (reading : Reading V) : List (Key V) := reading.payloads.map Payload.key

def World.without (id : Nat) (keys : List (Key V)) (world : World V σ) : World V σ :=
  keys.foldl (fun world key => (Slot.takeFor key id world).2) world

namespace World

variable {world : World V σ} {id : Nat}

@[simp] theorem without_nil (id : Nat) (world : World V σ) : world.without id [] = world := rfl

theorem without_cons (id : Nat) (key : Key V) (rest : List (Key V)) (world : World V σ) :
    world.without id (key :: rest) = (Slot.takeFor key id world).2.without id rest := rfl

theorem without_append (id : Nat) (first second : List (Key V)) (world : World V σ) :
    world.without id (first ++ second) = (world.without id first).without id second :=
  List.foldl_append

theorem stack_takeFor_same (key : Key V) (id : Nat) (world : World V σ) :
    (Slot.takeFor key id world).2.thread.stack key = ((world.thread.stack key).takeFor id).2 := by
  change (world.thread.setStack key ((world.thread.stack key).takeFor id).2).stack key = _
  by_cases gone : world.thread.store = none
  · rw [Thread.setStack_gone gone, Thread.stack_gone gone]
    rfl
  · rw [Thread.stack_setStack gone]

theorem stack_takeFor_other {key other : Key V} (differ : other ≠ key) (id : Nat)
    (world : World V σ) :
    (Slot.takeFor key id world).2.thread.stack other = world.thread.stack other :=
  Thread.stack_setStack_other _ _ differ

theorem stack_without (id : Nat) (keys : List (Key V)) (world : World V σ) (key : Key V) :
    (world.without id keys).thread.stack key =
      if key ∈ keys then ((world.thread.stack key).takeFor id).2 else world.thread.stack key := by
  induction keys generalizing world with
  | nil => rfl
  | cons first rest ih =>
      rw [without_cons, ih]
      by_cases here : key = first
      · subst here
        rw [stack_takeFor_same, Stack.takeFor_takeFor]
        simp
      · rw [stack_takeFor_other here]
        simp [here]

end World

namespace Argument

def isBuiltIn : Argument V → Bool
  | custom _ => false
  | optional inner => inner.isBuiltIn
  | take _ | copy _ | thrown _ | message | summary | report => true

inductive Moves : Argument V → Key V → Prop
  | take (key : Key V) : Moves (take key) key
  | thrown (type : ThrownType V) : Moves (thrown type) .thrown
  | optional {inner : Argument V} {key : Key V} (moves : Moves inner key) :
      Moves (optional inner) key

/-- What the argument is while the slots are those of `thread`; none if it is not available. -/
def meaning? (case : Case V) (thread : Thread V) : Argument V → Option (Reading V)
  | take key => ((thread.stack key).valueFor case.id.raw).map (.take key)
  | copy key => ((thread.stack key).valueFor case.id.raw).map (.copy key)
  | optional inner => some (.optional (inner.meaning? case thread))
  | thrown type =>
      (((thread.stack .thrown).valueFor case.id.raw).filter (·.hasType type)).map .thrown
  | message => (((thread.stack .thrown).valueFor case.id.raw).bind Thrown.text?).map .message
  | summary => some (.summary case.id ((thread.stack .thrown).valueFor case.id.raw).isSome)
  | report =>
      let present := (case.interest.keys.filter fun key => !key.isInternal).filter fun key =>
        ((thread.stack key).valueFor case.id.raw).isSome
      some (.report ⟨case.id, ((thread.stack .thrown).valueFor case.id.raw).isSome,
        present.map Key.name, (thread.stack .tally).valueFor case.id.raw⟩)
  | custom _ => none

theorem moves_iff {argument : Argument V} {key : Key V} :
    argument.Moves key ↔ argument.taken? = some key := by
  constructor
  · intro moves
    induction moves with
    | take | thrown => rfl
    | optional _ ih => exact ih
  · intro taken
    induction argument with
    | take => cases taken; exact .take _
    | thrown => cases taken; exact .thrown _
    | optional inner ih => exact .optional (ih taken)
    | copy | message | summary | report | custom => cases taken

variable [Host V σ]

theorem takeThrown_apply (type : ThrownType V) (id : FailureId) (world : World V σ) :
    takeThrown type id world =
      match (Slot.takeFor .thrown id.raw world).1 with
      | none => (none, (Slot.takeFor .thrown id.raw world).2)
      | some object =>
          if object.hasType type then (some object, (Slot.takeFor .thrown id.raw world).2)
          else (none, (record .thrown object id (Slot.takeFor .thrown id.raw world).2).2) := by
  unfold takeThrown
  simp only [bind, StateT.bind]
  rcases Slot.takeFor .thrown id.raw world with ⟨_ | object, later⟩
  · rfl
  · by_cases typed : object.hasType type = true
    · simp only [if_pos typed]
      rfl
    · simp only [if_neg typed]
      rfl

omit [Host V σ] in
theorem presentNames_apply (id : FailureId) (keys : List (Key V)) (world : World V σ) :
    presentNames id keys world =
      ((keys.filter fun key => ((world.thread.stack key).valueFor id.raw).isSome).map Key.name,
        world) := by
  induction keys with
  | nil => rfl
  | cons key rest ih =>
      unfold presentNames
      simp only [bind, StateT.bind, Slot.holds_apply, Stack.topId?_eq, ih]
      by_cases held : ((world.thread.stack key).valueFor id.raw).isSome = true
      · simp only [List.filter_cons, held, if_true, List.map_cons]
        rfl
      · simp only [List.filter_cons, held]
        rfl

omit [Host V σ] in
theorem makeReport_apply (case : Case V) (world : World V σ) :
    makeReport case world =
      (⟨case.id, ((world.thread.stack .thrown).valueFor case.id.raw).isSome,
        ((case.interest.keys.filter fun key => !key.isInternal).filter fun key =>
          ((world.thread.stack key).valueFor case.id.raw).isSome).map Key.name,
        (world.thread.stack .tally).valueFor case.id.raw⟩, world) := by
  unfold makeReport
  simp only [bind, StateT.bind, presentNames_apply]
  rw [← Stack.topId?_eq]
  rfl

theorem produce_optional (case : Case V) (inner : Argument V) (world : World V σ) :
    produce case (optional inner) world =
      if (inner.available case world).1 then
        (some (.optional (inner.produce case (inner.available case world).2).1),
          (inner.produce case (inner.available case world).2).2)
      else (some (.optional none), (inner.available case world).2) := by
  simp only [produce, bind, StateT.bind]
  rcases inner.available case world with ⟨_ | _, later⟩ <;> rfl
theorem available_apply {argument : Argument V} (builtIn : argument.isBuiltIn = true)
    (case : Case V) (world : World V σ) :
    argument.available case world = ((argument.meaning? case world.thread).isSome, world) := by
  cases argument with
  | take key | copy key =>
      simp only [available, Slot.holds_apply, Stack.topId?_eq, meaning?, Option.isSome_map]
  | optional | summary | report => rfl
  | thrown type =>
      change (((((world.thread.stack .thrown).valueFor case.id.raw).map _).getD false), world) = _
      rw [meaning?, Option.isSome_map]
      cases (world.thread.stack .thrown).valueFor case.id.raw with
      | none => rfl
      | some object => cases typed : object.hasType type <;> simp [Option.filter, typed]
  | message =>
      rw [meaning?, Option.isSome_map]
      rfl
  | custom => cases builtIn

/-- An argument that is available is produced as what it means, and takes what it owns. -/
theorem produce_meaning {argument : Argument V} (builtIn : argument.isBuiltIn = true)
    {case : Case V} {world : World V σ} {reading : Reading V}
    (means : argument.meaning? case world.thread = some reading) :
    argument.produce case world = (some reading, world.without case.id.raw reading.moved) := by
  induction argument generalizing reading with
  | take key =>
      obtain ⟨value, held, rfl⟩ := Option.map_eq_some_iff.1 means
      have taken : (Slot.takeFor key case.id.raw world).1 = some value := held
      change ((Slot.takeFor key case.id.raw world).1.map _, _) = _
      rw [taken]
      rfl
  | copy key =>
      obtain ⟨value, held, rfl⟩ := Option.map_eq_some_iff.1 means
      change (((world.thread.stack key).valueFor case.id.raw).map _, world) = _
      rw [held]
      rfl
  | optional inner ih =>
      have within : inner.isBuiltIn = true := builtIn
      cases means
      rw [produce_optional, available_apply within]
      rcases found : inner.meaning? case world.thread with _ | reading
      · rfl
      · simp only [Option.isSome_some, if_true, ih within found]
        rfl
  | thrown type =>
      obtain ⟨object, held, rfl⟩ := Option.map_eq_some_iff.1 means
      obtain ⟨held, typed⟩ := Option.filter_eq_some_iff.1 held
      have taken : (Slot.takeFor .thrown case.id.raw world).1 = some object := held
      change ((takeThrown type case.id world).1.map _, (takeThrown type case.id world).2) = _
      rw [takeThrown_apply, taken]
      simp only [typed, if_true]
      rfl
  | message =>
      obtain ⟨text, held, rfl⟩ := Option.map_eq_some_iff.1 means
      change ((((world.thread.stack .thrown).valueFor case.id.raw).bind Thrown.text?).map _, world) = _
      rw [held]
      rfl
  | summary =>
      cases means
      rw [← Stack.topId?_eq]
      rfl
  | report =>
      cases means
      change (some (Reading.report (makeReport case world).1), (makeReport case world).2) = _
      rw [makeReport_apply]
      rfl
  | custom => cases builtIn

omit [Host V σ]

theorem takes_eq {argument : Argument V} (builtIn : argument.isBuiltIn = true) :
    argument.takes = argument.taken?.isSome := by
  induction argument with
  | optional inner ih => exact ih builtIn
  | custom => cases builtIn
  | take | copy | thrown | message | summary | report => rfl

theorem moved_taken {argument : Argument V} {case : Case V} {thread : Thread V}
    {reading : Reading V} (means : argument.meaning? case thread = some reading) :
    ∀ key ∈ reading.moved, argument.taken? = some key := by
  induction argument generalizing reading with
  | take key =>
      obtain ⟨value, _, rfl⟩ := Option.map_eq_some_iff.1 means
      simp [Reading.moved, Reading.payloads, taken?]
  | thrown type =>
      obtain ⟨object, _, rfl⟩ := Option.map_eq_some_iff.1 means
      simp [Reading.moved, Reading.payloads, taken?]
  | optional inner ih =>
      cases means
      rcases found : inner.meaning? case thread with _ | within
      · simp [Reading.moved, Reading.payloads]
      · intro key listed
        exact ih found key listed
  | copy | message =>
      obtain ⟨value, _, rfl⟩ := Option.map_eq_some_iff.1 means
      simp [Reading.moved, Reading.payloads]
  | summary | report =>
      cases means
      simp [Reading.moved, Reading.payloads]
  | custom => cases means

theorem moved_eq_nil {argument : Argument V} (builtIn : argument.isBuiltIn = true)
    (reads : argument.takes = false) {case : Case V} {thread : Thread V} {reading : Reading V}
    (means : argument.meaning? case thread = some reading) : reading.moved = [] := by
  rw [takes_eq builtIn, Option.isSome_eq_false_iff, Option.isNone_iff_eq_none] at reads
  refine List.eq_nil_iff_forall_not_mem.2 fun key listed => ?_
  rw [moved_taken means key listed] at reads
  cases reads

/-- An argument that takes looks at no slot but its own. -/
theorem meaning?_congr {argument : Argument V} (builtIn : argument.isBuiltIn = true)
    (takes : argument.takes = true) {case : Case V} {thread later : Thread V}
    (same : ∀ key, argument.taken? = some key → later.stack key = thread.stack key) :
    argument.meaning? case later = argument.meaning? case thread := by
  induction argument with
  | take key => simp only [meaning?, same key rfl]
  | thrown type => simp only [meaning?, same .thrown rfl]
  | optional inner ih => simp only [meaning?, ih builtIn takes same]
  | copy | message | summary | report => cases takes
  | custom => cases builtIn

end Argument

namespace Arguments

def meanings (case : Case V) (thread : Thread V) (arguments : List (Argument V)) :
    List (Reading V) :=
  arguments.filterMap (Argument.meaning? case thread)

def moved (readings : List (Reading V)) : List (Key V) := readings.flatMap Reading.moved

def fill (case : Case V) (thread : Thread V) (taking : Bool) (place : Place V) : Place V :=
  if place.1.takes = taking then (place.1, place.1.meaning? case thread) else place

def round (case : Case V) (thread : Thread V) (taking : Bool) (places : List (Place V)) :
    List (Key V) :=
  moved (meanings case thread ((places.map Prod.fst).filter (·.takes = taking)))

variable [Host V σ]

theorem available_apply {arguments : List (Argument V)}
    (builtIn : ∀ argument ∈ arguments, argument.isBuiltIn = true) (case : Case V)
    (world : World V σ) :
    available case arguments world =
      (arguments.all fun argument => (argument.meaning? case world.thread).isSome, world) := by
  induction arguments with
  | nil => rfl
  | cons argument rest ih =>
      obtain ⟨first, later⟩ := List.forall_mem_cons.1 builtIn
      have asked := Argument.available_apply first case world
      simp only [available, bind, StateT.bind, asked, List.all_cons]
      cases (argument.meaning? case world.thread).isSome with
      | true => exact ih later
      | false => rfl

theorem announce_apply {arguments : List (Argument V)}
    (builtIn : ∀ argument ∈ arguments, argument.isBuiltIn = true) (before : Interest V)
    (world : World V σ) : announce before arguments world = ((), world) := by
  have silent : ∀ {argument : Argument V}, argument.isBuiltIn = true → ∀ count,
      argument.announce count world = ((), world) := by
    intro argument own count
    induction argument with
    | optional inner ih => exact ih own
    | custom => cases own
    | take | copy | thrown | message | summary | report => rfl
  induction arguments generalizing before with
  | nil => rfl
  | cons argument rest ih =>
      obtain ⟨first, later⟩ := List.forall_mem_cons.1 builtIn
      simp only [announce, bind, StateT.bind, silent first]
      exact ih later _

theorem produceSome_cons (case : Case V) (taking : Bool) (argument : Argument V)
    (reading : Option (Reading V)) (rest : List (Place V)) (world : World V σ) :
    produceSome case taking ((argument, reading) :: rest) world =
      if argument.takes = taking then
        match argument.produce case world with
        | (none, later) => ((false, (argument, none) :: rest), later)
        | (some reading, later) =>
            let after := produceSome case taking rest later
            ((after.1.1, (argument, some reading) :: after.1.2), after.2)
      else
        let after := produceSome case taking rest world
        ((after.1.1, (argument, reading) :: after.1.2), after.2) := by
  by_cases included : argument.takes = taking
  · simp only [produceSome, if_pos included, bind, StateT.bind]
    rcases argument.produce case world with ⟨_ | _, later⟩ <;> rfl
  · simp only [produceSome, if_neg included]
    rfl

omit [Host V σ] in
/-- A taking argument is not disturbed by what another one took. -/
theorem meaning?_undisturbed {argument other : Argument V} {case : Case V} {world : World V σ}
    {reading : Reading V} (builtIn : argument.isBuiltIn = true) (same : argument.takes = other.takes)
    (otherOwn : other.isBuiltIn = true)
    (apart : ∀ key, other.taken? = some key → argument.taken? ≠ some key)
    (means : other.meaning? case world.thread = some reading) :
    argument.meaning? case (world.without case.id.raw reading.moved).thread =
      argument.meaning? case world.thread := by
  cases takes : other.takes with
  | false => rw [Argument.moved_eq_nil otherOwn takes means, World.without_nil]
  | true =>
      refine Argument.meaning?_congr builtIn (same.trans takes) fun key taken => ?_
      rw [World.stack_without, if_neg fun listed => ?_]
      exact apart key (Argument.moved_taken means key listed) taken

/-- One round of producing: the places are filled with what their arguments meant at its start. -/
theorem produceSome_apply (case : Case V) (taking : Bool) {places : List (Place V)}
    {world : World V σ}
    (builtIn : ∀ place ∈ places, place.1.isBuiltIn = true)
    (means : ∀ place ∈ places, place.1.takes = taking →
      (place.1.meaning? case world.thread).isSome = true)
    (apart : places.Pairwise fun first later => ∀ key, first.1.taken? = some key →
      later.1.taken? ≠ some key) :
    produceSome case taking places world =
      ((true, places.map (fill case world.thread taking)),
        world.without case.id.raw (round case world.thread taking places)) := by
  -- the world moves on with each value that is taken; `apart` keeps the later meanings as they were
  induction places generalizing world with
  | nil => rfl
  | cons first rest ih =>
      obtain ⟨argument, reading⟩ := first
      obtain ⟨own, others⟩ := List.forall_mem_cons.1 builtIn
      obtain ⟨ready, later⟩ := List.forall_mem_cons.1 means
      obtain ⟨alone, apart⟩ := List.pairwise_cons.1 apart
      rw [produceSome_cons]
      by_cases included : argument.takes = taking
      · obtain ⟨found, meant⟩ := Option.isSome_iff_exists.1 (ready included)
        have still : ∀ place ∈ rest, place.1.takes = taking →
            place.1.meaning? case (world.without case.id.raw found.moved).thread =
              place.1.meaning? case world.thread := fun place listed takes =>
          meaning?_undisturbed (others place listed) (takes.trans included.symm) own
            (alone place listed) meant
        have filled : rest.map (fill case (world.without case.id.raw found.moved).thread taking) =
            rest.map (fill case world.thread taking) := by
          refine List.map_congr_left fun place listed => ?_
          unfold fill
          split
          · rename_i takes
            rw [still place listed takes]
          · rfl
        have rounds : round case (world.without case.id.raw found.moved).thread taking rest =
            round case world.thread taking rest := by
          refine congrArg moved (List.filterMap_congr fun argument listed => ?_)
          obtain ⟨listed, takes⟩ := List.mem_filter.1 listed
          obtain ⟨place, inside, rfl⟩ := List.mem_map.1 listed
          exact still place inside (by simpa using takes)
        have ready : ∀ place ∈ rest, place.1.takes = taking →
            (place.1.meaning? case (world.without case.id.raw found.moved).thread).isSome = true := by
          intro place listed takes
          rw [still place listed takes]
          exact later place listed takes
        have whole : round case world.thread taking ((argument, reading) :: rest) =
            found.moved ++ round case world.thread taking rest := by
          simp [round, meanings, moved, included, meant]
        rw [if_pos included, Argument.produce_meaning own meant]
        simp only [ih others ready apart, filled, rounds]
        rw [whole, World.without_append, List.map_cons, fill, if_pos included, meant]
      · have whole : round case world.thread taking ((argument, reading) :: rest) =
            round case world.thread taking rest := by
          simp [round, included]
        rw [if_neg included, ih others later apart, whole, List.map_cons, fill, if_neg included]

omit [Host V σ] in
theorem conflict?_eq_none {arguments : List (Argument V)} :
    conflict? arguments = none ↔ arguments.Pairwise fun first later =>
      ∀ key, first.taken? = some key → later.taken? ≠ some key := by
  rw [conflict?, repeated?_eq_none, List.Nodup, List.pairwise_filterMap]
  constructor
  · rintro ⟨apart, _⟩
    exact apart.imp fun differ key taken again => differ key taken key again rfl
  · intro apart
    refine ⟨apart.imp fun differ key taken other again same => ?_, by simp⟩
    exact differ key taken (same ▸ again)

omit [Host V σ] in
theorem moved_reading {arguments : List (Argument V)}
    (builtIn : ∀ argument ∈ arguments, argument.isBuiltIn = true) (case : Case V)
    (thread : Thread V) :
    moved (meanings case thread (arguments.filter (·.takes = false))) = [] := by
  refine List.flatMap_eq_nil_iff.2 fun reading listed => ?_
  obtain ⟨argument, inside, means⟩ := List.mem_filterMap.1 listed
  obtain ⟨inside, reads⟩ := List.mem_filter.1 inside
  exact Argument.moved_eq_nil (builtIn argument inside) (by simpa using reads) means

omit [Host V σ] in
theorem moved_taking {arguments : List (Argument V)}
    (builtIn : ∀ argument ∈ arguments, argument.isBuiltIn = true) (case : Case V)
    (thread : Thread V) :
    moved (meanings case thread (arguments.filter (·.takes = true))) =
      moved (meanings case thread arguments) := by
  induction arguments with
  | nil => rfl
  | cons argument rest ih =>
      obtain ⟨own, others⟩ := List.forall_mem_cons.1 builtIn
      have later := ih others
      unfold moved meanings at *
      simp only [Bool.decide_eq_true] at later
      rcases means : argument.meaning? case thread with _ | reading
      · cases takes : argument.takes <;> simp [takes, means, later]
      · cases takes : argument.takes with
        | true => simp [takes, means, later]
        | false => simp [takes, means, later, Argument.moved_eq_nil own takes means]

/-- If no two arguments take out of one slot, all are what they mean, whatever their order. -/
theorem produce_meanings {arguments : List (Argument V)} {case : Case V} {world : World V σ}
    (builtIn : ∀ argument ∈ arguments, argument.isBuiltIn = true)
    (free : conflict? arguments = none)
    (means : ∀ argument ∈ arguments, (argument.meaning? case world.thread).isSome = true) :
    produce case arguments world =
      (some (meanings case world.thread arguments),
        world.without case.id.raw (moved (meanings case world.thread arguments))) := by
  have apart := conflict?_eq_none.1 free
  let bare : List (Place V) := arguments.map fun argument => (argument, none)
  let partly : List (Place V) := bare.map (fill case world.thread false)
  have sides : bare.map Prod.fst = arguments ∧ partly.map Prod.fst = arguments := by
    constructor
    · rw [List.map_map]
      exact List.map_id arguments
    · simp only [partly, bare, List.map_map]
      refine (List.map_congr_left fun argument _ => ?_).trans (List.map_id arguments)
      simp only [Function.comp, fill, id]
      split <;> rfl
  have placed : ∀ {places : List (Place V)}, places.map Prod.fst = arguments →
      (∀ place ∈ places, place.1.isBuiltIn = true) ∧
      (∀ place ∈ places, (place.1.meaning? case world.thread).isSome = true) ∧
      places.Pairwise fun first later => ∀ key, first.1.taken? = some key →
        later.1.taken? ≠ some key := by
    rintro places rfl
    refine ⟨fun place listed => builtIn _ (List.mem_map_of_mem listed),
      fun place listed => means _ (List.mem_map_of_mem listed), List.pairwise_map.1 apart⟩
  obtain ⟨own, ready, alone⟩ := placed sides.1
  obtain ⟨ownLater, readyLater, aloneLater⟩ := placed sides.2
  -- the first round takes nothing, so the second starts in the same world
  have reads : produceSome case false bare world = ((true, partly), world) := by
    rw [produceSome_apply case false own (fun place listed _ => ready place listed) alone, round,
      sides.1, moved_reading builtIn]
    rfl
  have takes := produceSome_apply case true ownLater
    (fun place listed _ => readyLater place listed) aloneLater
  rw [round, sides.2, moved_taking builtIn] at takes
  have filled : (partly.map (fill case world.thread true)).filterMap Prod.snd =
      meanings case world.thread arguments := by
    simp only [partly, bare, List.map_map, List.filterMap_map, meanings]
    refine List.filterMap_congr fun argument _ => ?_
    cases taking : argument.takes <;> simp [fill, taking]
  simp only [produce, bind, StateT.bind]
  rw [reads]
  simp only [if_true, StateT.bind]
  rw [takes]
  change (some ((partly.map (fill case world.thread true)).filterMap Prod.snd), _) = _
  rw [filled]

end Arguments

end FaultRelay

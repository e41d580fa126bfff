import FaultRelay.Handler.Basic
import FaultRelay.Proofs.ArgumentMeaning
import FaultRelay.Proofs.Conduct

/-! The arguments of a handler are linear: whatever values the arguments took out of their slots are
in hand when the handler is given its readings, and nothing else is. -/
namespace FaultRelay

variable {V : Vocabulary} {σ : Type}

def Arguments.placed (places : List (Arguments.Place V)) : List (Payload V) :=
  Arguments.payloads (places.filterMap Prod.snd)

theorem Arguments.placed_cons (place : Arguments.Place V) (rest : List (Arguments.Place V)) :
    placed (place :: rest) = payloads place.2.toList ++ placed rest := by
  obtain ⟨argument, _ | reading⟩ := place
  · rfl
  · simp [placed, payloads]

variable [Client V σ] {hand : Hand V} {world : World V (Ledger V σ)}

theorem Conducts.owning_none {α : Type} {before after : Hand V} {act : Quiet V (Ledger V σ) α}
    {payloads : List (Payload V)} (nothing : payloads = [])
    (conducts : Conducts before act world after) :
    Conducts before act world (.values payloads + after) := by
  rw [nothing, Hand.values_nil, zero_add]
  exact conducts

namespace Argument

variable [Orderly V σ]

theorem takeThrown_conducts (type : ThrownType V) (id : FailureId) :
    Conducts hand (takeThrown type id) world
      (.values (Key.payloads .thrown (takeThrown type id world).1.toList) + hand) := by
  rw [takeThrown_apply]
  refine .bind (take_conducts .thrown id.raw) ?_
  rcases Slot.takeFor .thrown id.raw world with ⟨_ | object, later⟩
  · exact .pure none
  · by_cases typed : object.hasType type = true
    · simp only [if_pos typed]
      exact .pure (some object)
    · simp only [if_neg typed, Option.toList_some, Option.toList_none]
      rw [Hand.values_none, Hand.values_one]
      exact .bind (.ignore (record_conducts .thrown object id)) (.pure none)

theorem available_conducts (case : Case V) (argument : Argument V) :
    Conducts hand (argument.available case) world hand := by
  cases argument with
  | custom argument => exact Orderly.available argument case hand world
  | take | copy | optional | thrown | message | summary | report => exact .unmoved (.refl world)

theorem produce_conducts (case : Case V) (argument : Argument V) :
    Conducts hand (argument.produce case) world
      (.values (Arguments.payloads (argument.produce case world).1.toList) + hand) := by
  induction argument generalizing world with
  | take key =>
      have owned : Arguments.payloads (produce case (take key) world).1.toList =
          key.payloads (Slot.takeFor key case.id.raw world).1.toList := by
        change Arguments.payloads ((Slot.takeFor key case.id.raw world).1.map _).toList = _
        cases (Slot.takeFor key case.id.raw world).1 <;> rfl
      rw [owned]
      exact .bind (take_conducts key case.id.raw) (.pure _)
  | thrown type =>
      have owned : Arguments.payloads (produce case (thrown type) world).1.toList =
          Key.payloads .thrown (takeThrown type case.id world).1.toList := by
        change Arguments.payloads ((takeThrown type case.id world).1.map _).toList = _
        cases (takeThrown type case.id world).1 <;> rfl
      rw [owned]
      exact .bind (takeThrown_conducts type case.id) (.pure _)
  | optional inner ih =>
      have owned : ∀ answer : Option (Reading V),
          Arguments.payloads [.optional answer] = Arguments.payloads answer.toList := by
        rintro (_ | reading)
        · rfl
        · simp [Arguments.payloads, Reading.payloads]
      rw [produce_optional]
      refine .bind (available_conducts case inner) ?_
      rcases inner.available case world with ⟨_ | _, later⟩
      · simp only [Bool.false_eq_true, if_false, Option.toList_some, owned, Option.toList_none]
        exact .owning_none rfl (.pure _)
      · simp only [if_true, Option.toList_some, owned]
        exact .bind ih (.pure _)
  | copy key =>
      refine .owning_none ?_ (.unmoved (.refl world))
      change Arguments.payloads (((world.thread.stack key).valueFor case.id.raw).map _).toList = _
      cases (world.thread.stack key).valueFor case.id.raw <;> rfl
  | message =>
      refine .owning_none ?_ (.unmoved (.refl world))
      change Arguments.payloads ((message? (V := V) case.id world).1.map _).toList = _
      cases (message? (V := V) case.id world).1 <;> rfl
  | summary => exact .owning_none rfl (.unmoved (.refl world))
  | report =>
      have read : (produce case report world).2 = world := by
        change (makeReport case world).2 = world
        rw [makeReport_apply]
      refine .owning_none rfl (.unmoved ?_)
      rw [read]
      exact .refl world
  | custom argument =>
      refine .owning_none ?_ (.bind (Orderly.produced argument hand world) (.pure _))
      change Arguments.payloads ((Client.produced argument world).1.map _).toList = _
      cases (Client.produced argument world).1 <;> rfl

end Argument

theorem Reading.discard_conducts [Orderly V σ] (reading : Reading V) :
    Conducts (.values reading.payloads + hand) reading.discard world hand := by
  match reading with
  | take key value => exact releaseValues_conducts key [value]
  | thrown object => exact releaseValues_conducts .thrown [object]
  | optional (some inner) => exact inner.discard_conducts
  | optional none | copy _ _ | message _ | summary _ _ | report _ | custom _ =>
      rw [payloads, Hand.values_nil, zero_add]
      exact .pure ()

namespace Arguments

variable [Orderly V σ]

theorem discard_conducts (readings : List (Reading V)) :
    Conducts (.values (payloads readings) + hand) (readings.forM Reading.discard) world hand := by
  induction readings generalizing world with
  | nil =>
      rw [payloads, List.flatMap_nil, Hand.values_nil, zero_add]
      exact .pure ()
  | cons reading rest ih =>
      rw [payloads, List.flatMap_cons, Hand.values_append, add_assoc]
      exact .bind reading.discard_conducts ih

theorem announce_conducts (before : Interest V) (arguments : List (Argument V)) :
    Conducts hand (announce before arguments) world hand := by
  induction arguments generalizing world before with
  | nil => exact .pure ()
  | cons argument rest ih =>
      refine .bind ?_ (ih _)
      induction argument with
      | custom argument => exact Orderly.declared argument before.size hand world
      | optional inner ih => exact ih
      | take | copy | thrown | message | summary | report => exact .pure ()

theorem available_conducts (case : Case V) (arguments : List (Argument V)) :
    Conducts hand (available case arguments) world hand := by
  induction arguments generalizing world with
  | nil => exact .pure true
  | cons argument rest ih =>
      refine .bind (argument.available_conducts case) ?_
      split
      · exact ih
      · exact .pure false

omit [Orderly V σ] in
theorem produceSome_others (case : Case V) (taking : Bool) {places : List (Place V)}
    {place : Place V} (other : place.1.takes ≠ taking)
    (after : place ∈ (produceSome case taking places world).1.2) : place ∈ places := by
  induction places generalizing world with
  | nil => exact after
  | cons first rest ih =>
      obtain ⟨argument, reading⟩ := first
      rw [produceSome_cons] at after
      by_cases included : argument.takes = taking
      · rw [if_pos included] at after
        rcases result : argument.produce case world with ⟨_ | produced, later⟩ <;>
          rw [result] at after
        · rcases List.mem_cons.1 after with rfl | listed
          · exact absurd included other
          · exact List.mem_cons_of_mem _ listed
        · rcases List.mem_cons.1 after with rfl | listed
          · exact absurd included other
          · exact List.mem_cons_of_mem _ (ih listed)
      · rw [if_neg included] at after
        rcases List.mem_cons.1 after with rfl | listed
        · exact List.mem_cons_self
        · exact List.mem_cons_of_mem _ (ih listed)

/-- No reading is overwritten as long as the places to be produced are empty. -/
theorem produceSome_conducts (case : Case V) (taking : Bool) (places : List (Place V))
    (unread : ∀ place ∈ places, place.1.takes = taking → place.2 = none) :
    Conducts (.values (placed places) + hand) (produceSome case taking places) world
      (.values (placed (produceSome case taking places world).1.2) + hand) := by
  induction places generalizing world hand with
  | nil => exact .pure (true, [])
  | cons first rest ih =>
      obtain ⟨argument, reading⟩ := first
      have later : ∀ (hand : Hand V) (world : World V (Ledger V σ)),
          Conducts (.values (placed rest) + hand) (produceSome case taking rest) world
            (.values (placed (produceSome case taking rest world).1.2) + hand) := fun _ _ =>
        ih fun place listed => unread place (List.mem_cons_of_mem _ listed)
      rw [produceSome_cons, placed_cons, Hand.values_append]
      by_cases included : argument.takes = taking
      · have empty : reading = none := unread _ List.mem_cons_self included
        simp only [if_pos included, empty, Option.toList_none, payloads, List.flatMap_nil,
          Hand.values_nil, zero_add, produceSome]
        refine .bind (argument.produce_conducts case) ?_
        rcases argument.produce case world with ⟨_ | found, after⟩
        · rw [placed_cons, Hand.values_append, add_assoc]
          exact .pure _
        · simp only [placed_cons, Option.toList_some, Hand.values_append, add_assoc]
          rw [add_left_comm, add_left_comm (Hand.values (payloads [found]))]
          exact .bind (later _ after) (.pure _)
      · simp only [if_neg included, placed_cons, Hand.values_append, produceSome]
        rw [add_assoc, add_assoc, add_left_comm, add_left_comm (Hand.values (payloads _))]
        exact .bind (later _ world) (.pure _)

def gather (case : Case V) (arguments : List (Argument V)) :
    Quiet V (Ledger V σ) (Bool × List (Place V)) := do
  let (reading, partly) ← produceSome case false (arguments.map fun argument => (argument, none))
  if reading then produceSome case true partly else pure (false, partly)

omit [Orderly V σ] in
theorem gather_apply (case : Case V) (arguments : List (Argument V))
    (world : World V (Ledger V σ)) :
    gather case arguments world =
      match produceSome case false (arguments.map fun argument => (argument, none)) world with
      | ((true, partly), later) => produceSome case true partly later
      | ((false, partly), later) => ((false, partly), later) := by
  unfold gather
  simp only [bind, StateT.bind]
  rcases produceSome case false _ world with ⟨⟨_ | _, partly⟩, later⟩ <;> rfl

omit [Orderly V σ] in
theorem produce_eq_gather (case : Case V) (arguments : List (Argument V)) :
    (produce case arguments : Quiet V (Ledger V σ) _) =
      gather case arguments >>= fun gathered =>
        if gathered.1 then pure (some (gathered.2.filterMap Prod.snd))
        else (gathered.2.filterMap Prod.snd).forM Reading.discard >>= fun _ => pure none := by
  funext world
  unfold produce gather
  simp only [bind, StateT.bind]
  rcases produceSome case false _ world with ⟨⟨_ | _, partly⟩, later⟩ <;> rfl

omit [Orderly V σ] in
theorem produce_apply (case : Case V) (arguments : List (Argument V))
    (world : World V (Ledger V σ)) :
    produce case arguments world =
      match gather case arguments world with
      | ((true, places), later) => (some (places.filterMap Prod.snd), later)
      | ((false, places), later) =>
          (none, ((places.filterMap Prod.snd).forM Reading.discard later).2) := by
  rw [produce_eq_gather]
  simp only [bind, StateT.bind]
  rcases gather case arguments world with ⟨⟨_ | _, places⟩, later⟩ <;> rfl

theorem gather_conducts (case : Case V) (arguments : List (Argument V)) :
    Conducts hand (gather case arguments) world
      (.values (placed (gather case arguments world).1.2) + hand) := by
  let bare : List (Place V) := arguments.map fun argument => (argument, none)
  have unread : ∀ place ∈ bare, place.2 = none := by
    intro place listed
    obtain ⟨argument, _, rfl⟩ := List.mem_map.1 listed
    rfl
  have owned : placed bare = [] := by
    rw [placed, List.filterMap_eq_nil_iff.2 unread]
    rfl
  have reads : Conducts (.values (placed bare) + hand) (produceSome case false bare) world _ :=
    produceSome_conducts case false bare fun place listed _ => unread place listed
  have takes : Conducts (.values (placed (produceSome case false bare world).1.2) + hand)
      (produceSome case true _) (produceSome case false bare world).2 _ :=
    produceSome_conducts case true (produceSome case false bare world).1.2
      fun place listed taken => unread place
        (produceSome_others case false (by rw [taken]; exact Bool.noConfusion) listed)
  rw [owned, Hand.values_nil, zero_add] at reads
  rw [gather_apply]
  refine .bind reads ?_
  rcases result : produceSome case false bare world with ⟨⟨_ | _, partly⟩, later⟩
  · exact .pure _
  · rwa [result] at takes

/-- The readings that a handler is given own what is in hand afterwards, and if it is given none,
everything that was taken has ended. -/
theorem produce_conducts (case : Case V) (arguments : List (Argument V)) :
    Conducts hand (produce case arguments) world
      (.values (payloads ((produce case arguments world).1.getD [])) + hand) := by
  rw [produce_apply, produce_eq_gather]
  refine .bind (gather_conducts case arguments) ?_
  rcases gather case arguments world with ⟨⟨_ | _, places⟩, later⟩
  · have nothing : Hand.values (payloads ([] : List (Reading V))) + hand = hand := zero_add hand
    rw [Option.getD_none, nothing]
    exact .bind (discard_conducts (places.filterMap Prod.snd)) (.pure none)
  · exact .pure _

end Arguments

end FaultRelay

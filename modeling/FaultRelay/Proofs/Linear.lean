import FaultRelay.Guard
import FaultRelay.Parcel
import FaultRelay.Proofs.Effects
import FaultRelay.Proofs.Outcome
import FaultRelay.Spawn
import FaultRelay.Unwinding

/-! Programs that own their values linearly: what is in hand is used once, and every operation of the
library takes and gives exactly what it says. The judgement follows one execution, so a program may
decide by what it sees, and it says what the execution does to the slots, deed by deed. Code of the
application that the library runs, destructors included, is judged like any other. A program may
abort anywhere, which stops it without any cleanup; every moment between two operations is therefore
the end of some program. -/
namespace FaultRelay

variable {V : Vocabulary} {σ : Type}

section Operations

variable [Client V σ]

def make (kind : V.Kind) (value : V.Value kind) : Quiet V (Ledger V σ) Unit :=
  modify (World.noteMade ⟨.app kind, value⟩)

def parting : (key : Key V) → key.Value → Quiet V (Ledger V σ) Unit
  | .app kind, value => Client.parting kind value
  | .tally, _ | .thrown, _ => pure ()

def settle (key : Key V) (ending : key.Value → Quiet V (Ledger V σ) Unit) (id : FailureId) :
    Stored key.Value → Quiet V (Ledger V σ) Bool
  | .stored none => pure true
  | .stored (some previous) => do
      ending previous
      return true
  | .rejected refused => do
      ending refused
      noteStray key id
      return false

def shed (key : Key V) : Closed key.Value → Quiet V (Ledger V σ) Unit
  | .retained | .released | .notOpen => pure ()
  | .propagated id none => emit (.propagated key.name id)
  | .propagated id (some replaced) => do
      emit (.propagated key.name id)
      release key replaced
  | .discarded id value => do
      emit (.discarded key.name id)
      release key value

def endStored (store : Option (Store V)) : Quiet V (Ledger V σ) Unit :=
  match store with
  | none => pure ()
  | some store => store.entries.forM fun entry => entry.2.values.forM (release entry.1)

variable {key : Key V} {world : World V (Ledger V σ)}

theorem release_eq_parting (key : Key V) (value : key.Value) (world : World V (Ledger V σ)) :
    release key value world = parting key value (world.noteEnded ⟨key, value⟩) := by
  cases key with
  | app kind => rfl
  | tally | thrown => rw [World.noteEnded_internal rfl]; rfl

theorem recordEnding_eq_settle (ending : key.Value → Quiet V (Ledger V σ) Unit) (value : key.Value)
    (id : FailureId) :
    recordEnding key ending value id = Slot.put key id.raw value >>= settle key ending id := by
  unfold recordEnding
  congr 1
  funext answer
  rcases answer with (_ | _) | _ <;> rfl

theorem closeSlot_eq_shed (owner : Token) (key : Key V) :
    (Scope.closeSlot owner key : Quiet V (Ledger V σ) Unit) = Slot.close key owner >>= shed key := by
  unfold Scope.closeSlot
  congr 1
  funext answer
  rcases answer with _ | _ | ⟨_, _ | _⟩ | _ | _ <;> rfl

theorem leave_eq_lessTallying (scope : OpenScope V) :
    (scope.leave : Quiet V (Ledger V σ) Unit) =
      scope.interest.keys.reverse.forM (Scope.closeSlot scope.token) >>= fun _ =>
        modify (World.lessTallying scope.tallies) >>= fun _ => emit (.closed scope.token.value) := by
  unfold OpenScope.leave World.lessTallying
  cases scope.tallies <;> rfl

theorem endStorage_eq_endStored (world : World V (Ledger V σ)) :
    Slot.endStorage world = endStored world.thread.store world.withoutStorage := by
  obtain ⟨process, ⟨store, lastToken, tallying, current, reserved, unwindings⟩, host⟩ := world
  cases store <;> rfl

end Operations

/-- The code that the application supplies. -/
inductive Supplied [Client V σ] : {α : Type} → Quiet V (Ledger V σ) α → Prop
  | parting (kind : V.Kind) (value : V.Value kind) : Supplied (Client.parting kind value)
  | declared (custom : V.Custom) (count : Nat) : Supplied (Client.declared custom count)
  | available (custom : V.Custom) (case : Case V) : Supplied (Client.available custom case)
  | produced (custom : V.Custom) : Supplied (Client.produced custom)

def threadEnd {α : Type} (act : Act V (Ledger V σ) α) (world : World V (Ledger V σ)) :
    World V (Ledger V σ) :=
  (act.attempt { world with thread := .fresh V }).2

namespace Lend

structure Takes (lend : Lend V) (world : World V (Ledger V σ)) : Prop where
  innermost : ∃ top, (world.thread.stack lend.key).top? = some top ∧ top.owner = lend.owner
  held : (world.thread.stack lend.key).valueFor lend.id = some lend.value

def taken (lend : Lend V) (world : World V (Ledger V σ)) : World V (Ledger V σ) :=
  (Slot.takeFor lend.key lend.id world).2

end Lend

/-- `act`, run in `world` with `before` in hand, does these deeds and ends with `after` in hand. What
an operation does to the slots is the first of its deeds; the code it goes on to run is judged by the
premise of its rule. -/
inductive Linear [Client V σ] : {α : Type} → Hand V → Act V (Ledger V σ) α → World V (Ledger V σ) →
    List (Deed V) → Hand V → Prop
  -- What touches no slot: identities, the settings, the observer, the program's own state, the
  -- start of an unwinding, an abort.
  | idle {α : Type} {hand} {act : Act V (Ledger V σ) α} {world}
      (unmoved : Unmoved world (act world).2) : Linear hand act world [.other] hand
  | bind {α β : Type} {before middle after} {act : Act V (Ledger V σ) α}
      {next : α → Act V (Ledger V σ) β} {world} {value : α} {deeds more}
      (first : Linear before act world deeds middle) (returned : (act world).1 = .ok value)
      (second : Linear middle (next value) (act world).2 more after) :
      Linear before (act >>= next) world (deeds ++ more) after
  | skip {α β : Type} {before after} {act : Act V (Ledger V σ) α}
      {next : α → Act V (Ledger V σ) β} {world} {exit : Exit V} {deeds}
      (first : Linear before act world deeds after) (left : (act world).1 = .error exit) :
      Linear before (act >>= next) world deeds after
  | attempt {α : Type} {before after} {act : Act V (Ledger V σ) α} {world} {deeds}
      (body : Linear before act world deeds after) :
      Linear before act.attempt world (deeds ++ [.other]) after
  | cleanup {α : Type} {before middle after} {act : Act V (Ledger V σ) α}
      {clean : Act V (Ledger V σ) Unit} {world} {object : Thrown V} {deeds more}
      (body : Linear before act world deeds middle)
      (unwound : (act world).1 = .error (.unwinding object))
      (cleaning : Linear middle clean (act world).2 more after) :
      Linear before (act.onUnwinding clean) world (deeds ++ more) after
  | passed {α : Type} {before after} {act : Act V (Ledger V σ) α} {clean : Act V (Ledger V σ) Unit}
      {world} {deeds} (body : Linear before act world deeds after)
      (intact : ∀ object, (act world).1 ≠ .error (.unwinding object)) :
      Linear before (act.onUnwinding clean) world deeds after
  -- Code of the application never unwinds, but may be a program that returns in this world.
  | supplied {α : Type} {before after world} {code : Quiet V (Ledger V σ) α}
      {act : Act V (Ledger V σ) α} {deeds} (supplied : Supplied code)
      (returns : act world = quietly code world) (body : Linear before act world deeds after) :
      Linear before (quietly code) world deeds after
  | make {hand world} (kind : V.Kind) (value : V.Value kind) :
      Linear hand (quietly (make kind value)) world [.made ⟨.app kind, value⟩]
        (.value ⟨.app kind, value⟩ ::ₘ hand)
  | release {hand after world deeds} {key : Key V} {value : key.Value}
      (parts : Linear hand (quietly (parting key value)) (world.noteEnded ⟨key, value⟩) deeds
        after) :
      Linear (.value ⟨key, value⟩ ::ₘ hand) (quietly (release key value)) world
        (.ended ⟨key, value⟩ :: deeds) after
  | record {hand after world deeds} {key : Key V} {value : key.Value} {id : FailureId}
      (settles : Linear (.values (key.payloads (Slot.put key id.raw value world).1.freed) + hand)
        (quietly (settle key (release key) id (Slot.put key id.raw value world).1))
        (Slot.put key id.raw value world).2 deeds after) :
      Linear (.value ⟨key, value⟩ ::ₘ hand) (quietly (record key value id)) world
        (.put key id.raw value (Slot.put key id.raw value world).1 :: deeds) after
  -- A record by a destructor, which says itself how values end.
  | recordEnding {hand after world deeds} {key : Key V}
      {ending : key.Value → Quiet V (Ledger V σ) Unit} {value : key.Value} {id : FailureId}
      (settles : Linear (.values (key.payloads (Slot.put key id.raw value world).1.freed) + hand)
        (quietly (settle key ending id (Slot.put key id.raw value world).1))
        (Slot.put key id.raw value world).2 deeds after) :
      Linear (.value ⟨key, value⟩ ::ₘ hand) (quietly (recordEnding key ending value id)) world
        (.put key id.raw value (Slot.put key id.raw value world).1 :: deeds) after
  | count {hand world} (name : String) (id : Nat) :
      Linear hand (quietly (Slot.editTop .tally (countStray name id))) world [.counted name id] hand
  | take {hand world} (key : Key V) (id : Nat) :
      Linear hand (quietly (Slot.takeFor key id)) world
        [.taken key id (Slot.takeFor key id world).1]
        (.values (key.payloads (Slot.takeFor key id world).1.toList) + hand)
  | lendNothing {α : Type} {hand world} {key : Key V} {id : Nat}
      {use : key.Value → Act V (Ledger V σ) α}
      (absent : (world.thread.stack key).valueFor id = none) :
      Linear hand (Slot.lend key id use) world [.other] hand
  | lendAborted {α : Type} {before after world} {lend : Lend V}
      {use : lend.key.Value → Act V (Ledger V σ) α} {deeds} (takes : lend.Takes world)
      (body : Linear before (use lend.value) (lend.taken world) deeds after)
      (aborted : (use lend.value (lend.taken world)).1 = .error .aborted) :
      Linear before (Slot.lend lend.key lend.id use) world (.lent lend :: deeds) after
  | lendBack {α : Type} {before after world} {lend : Lend V}
      {use : lend.key.Value → Act V (Ledger V σ) α} {deeds} (takes : lend.Takes world)
      (body : Linear before (use lend.value) (lend.taken world) deeds after)
      (finished : (use lend.value (lend.taken world)).1 ≠ .error .aborted)
      (welcome : lend.isWelcome (use lend.value (lend.taken world)).2 = true) :
      Linear before (Slot.lend lend.key lend.id use) world
        (.lent lend :: (deeds ++ [.returned lend true])) after
  | lendOver {α : Type} {before middle after world} {lend : Lend V}
      {use : lend.key.Value → Act V (Ledger V σ) α} {deeds more} (takes : lend.Takes world)
      (body : Linear before (use lend.value) (lend.taken world) deeds middle)
      (finished : (use lend.value (lend.taken world)).1 ≠ .error .aborted)
      (unwelcome :
        lend.isWelcome (use lend.value (lend.taken world)).2 = false)
      (ends : Linear (.value ⟨lend.key, lend.value⟩ ::ₘ middle)
        (quietly (release lend.key lend.value))
        (use lend.value (lend.taken world)).2 more after) :
      Linear before (Slot.lend lend.key lend.id use) world
        (.lent lend :: (deeds ++ .returned lend false :: more)) after
  | enter {hand world} (scope : Scope V) :
      Linear hand (quietly scope.enter) world [.entered (scope.enter world).1]
        (.scope (scope.enter world).1 ::ₘ hand)
  | leave {hand world} {scope : OpenScope V} {deeds}
      (leaves : Linear (.closing scope.token scope.interest.keys.reverse scope.tallies ::ₘ hand)
        (quietly scope.leave) world deeds hand) :
      Linear (.scope scope ::ₘ hand) (quietly scope.leave) world (.leaving scope :: deeds) hand
  | close {hand after world} {owner : Token} {key : Key V} {rest : List (Key V)} {tallies : Bool}
      {deeds}
      (sheds : Linear (Hand.values (key.payloads (Slot.close key owner world).1.freed) +
          .closing owner rest tallies ::ₘ hand)
        (quietly (shed key (Slot.close key owner world).1)) (Slot.close key owner world).2 deeds
        after) :
      Linear (.closing owner (key :: rest) tallies ::ₘ hand) (quietly (Scope.closeSlot owner key))
        world (.closed key owner (Slot.close key owner world).1 :: deeds) after
  | left {hand world} (owner : Token) (tallies : Bool) :
      Linear (.closing owner [] tallies ::ₘ hand) (quietly (modify (World.lessTallying tallies)))
        world [.left tallies world.thread.tallying] hand
  | arm {κ : Key V → Type} {hand world} (payloads : List (Payload V)) :
      Linear (Hand.values payloads + hand) (quietly (Guard.arm (κ := κ) (.prepared payloads))) world
        [.other] (.guard payloads ::ₘ hand)
  | dismiss {κ : Key V → Type} {hand after world} {guard : Guard V κ} {payloads : List (Payload V)}
      {deeds} (prepared : guard.context = .prepared payloads)
      (dismisses : Linear (Hand.values payloads + hand) (quietly guard.dismiss) world deeds after) :
      Linear (.guard payloads ::ₘ hand) (quietly guard.dismiss) world (.other :: deeds) after
  | drop {κ : Key V → Type} {hand after world} {guard : Guard V κ} {payloads : List (Payload V)}
      {run : (key : Key V) → κ key → Act V (Ledger V σ) key.Value} {deeds}
      (prepared : guard.context = .prepared payloads)
      (drops : Linear (Hand.values payloads + hand) (guard.drop run) world deeds after) :
      Linear (.guard payloads ::ₘ hand) (guard.drop run) world (.other :: deeds) after
  | keep {hand after world} {object : Thrown V} {deeds}
      (keeps : Linear (.value ⟨.thrown, object⟩ ::ₘ hand) (quietly object.keep) world deeds after) :
      Linear hand (quietly object.keep) world (.made ⟨.thrown, object⟩ :: deeds) after
  | collect {hand after world} {id : FailureId} {keys : List (Key V)} {deeds}
      (collects : Linear hand (quietly (Parcel.collect id keys)) world deeds
        (.values (Parcel.collect id keys world).1 + after)) :
      Linear hand (quietly (Parcel.collect id keys)) world (deeds ++ [.other])
        (.parcel (Parcel.collect id keys world).1 ::ₘ after)
  | unpack {hand after world} {parcel : Parcel V} {deeds}
      (unpacks : Linear (.values parcel.payloads + hand) (quietly parcel.unpack) world deeds after) :
      Linear (.parcel parcel.payloads ::ₘ hand) (quietly parcel.unpack) world (.other :: deeds) after
  | dropParcel {hand after world} {parcel : Parcel V} {deeds}
      (drops : Linear (.values parcel.payloads + hand) (quietly parcel.drop) world deeds after) :
      Linear (.parcel parcel.payloads ::ₘ hand) (quietly parcel.drop) world (.other :: deeds) after
  | endStorage {hand after world} {deeds}
      (ends : Linear (.values world.thread.payloads + hand) (quietly (endStored world.thread.store))
        world.withoutStorage deeds after) :
      Linear hand (quietly Slot.endStorage) world (.storageEnded world.thread.payloads :: deeds) after
  | spawn {α : Type} {given middle brought kept : Hand V} {act : Act V (Ledger V σ) α} {world}
      {deeds more} (portable : ∀ holding ∈ given + brought, holding.isPortable = true)
      (body : Linear given act { world with thread := .fresh V } deeds middle)
      (finished : (act { world with thread := .fresh V }).1 ≠ .error .aborted)
      (ends : Linear (.values (threadEnd act world).thread.payloads + middle)
        (quietly (endStored (threadEnd act world).thread.store))
        (threadEnd act world).withoutStorage more brought) :
      Linear (given + kept) (spawn act) world
        ((deeds ++ .other :: .storageEnded (threadEnd act world).thread.payloads :: more).map
          .elsewhere) (brought + kept)

/-- An execution does these deeds and ends with `after` in hand, and with everything given back unless
it was aborted. -/
def Settles [Client V σ] {α : Type} (before : Hand V) (act : Act V (Ledger V σ) α)
    (world : World V (Ledger V σ)) (deeds : List (Deed V)) (after : Hand V) : Prop :=
  ∀ lends, ∃ still, Course ⟨before, lends, world⟩ deeds ⟨after, still ++ lends, (act world).2⟩ ∧
    ((act world).1 ≠ .error .aborted → still = [])

theorem quietly_congr {α : Type} {first second : Quiet V (Ledger V σ) α}
    {world next : World V (Ledger V σ)} (same : first world = second next) :
    quietly first world = quietly second next := by
  unfold quietly
  rw [same]

theorem attempt_unmoved {α : Type} {world : World V (Ledger V σ)} {act : Act V (Ledger V σ) α} :
    Unmoved (act world).2 (act.attempt world).2 := by
  unfold Act.attempt
  rcases act world with ⟨(object | _) | value, later⟩ <;> exact ⟨rfl, rfl, rfl, rfl, rfl⟩

namespace Settles

variable [Client V σ] {α β : Type} {before middle after hand : Hand V} {deed : Deed V}
  {deeds more : List (Deed V)} {world next : World V (Ledger V σ)} {act same : Act V (Ledger V σ) α}

theorem finished (settles : Settles before act world deeds after)
    (finished : (act world).1 ≠ .error .aborted) (lends : List (Lend V)) :
    Course ⟨before, lends, world⟩ deeds ⟨after, lends, (act world).2⟩ := by
  obtain ⟨still, course, none⟩ := settles lends
  rwa [none finished] at course

theorem course {quiet : Quiet V (Ledger V σ) α}
    (settles : Settles before (quietly quiet) world deeds after) (lends : List (Lend V)) :
    Course ⟨before, lends, world⟩ deeds ⟨after, lends, (quiet world).2⟩ :=
  settles.finished (fun aborted => by cases aborted) lends

theorem once {quiet : Quiet V (Ledger V σ) α}
    (does : ∀ lends, Does ⟨before, lends, world⟩ deed ⟨after, lends, (quiet world).2⟩) :
    Settles before (quietly quiet) world [deed] after :=
  fun lends => ⟨[], (does lends).course, fun _ => rfl⟩

theorem idle (unmoved : Unmoved world (act world).2) : Settles hand act world [.other] hand :=
  fun _ => ⟨[], Does.course (.other unmoved), fun _ => rfl⟩

theorem step (does : ∀ lends, Does ⟨before, lends, world⟩ deed ⟨middle, lends, next⟩)
    (goesOn : act world = same next) (settles : Settles middle same next deeds after) :
    Settles before act world (deed :: deeds) after := by
  intro lends
  obtain ⟨still, course, none⟩ := settles lends
  rw [goesOn]
  exact ⟨still, .step (does lends) course, none⟩

theorem bind {next : α → Act V (Ledger V σ) β} {value : α}
    (first : Settles before act world deeds middle) (returned : (act world).1 = .ok value)
    (second : Settles middle (next value) (act world).2 more after) :
    Settles before (act >>= next) world (deeds ++ more) after := by
  have done : (act world).1 ≠ .error .aborted := by rw [returned]; simp
  intro lends
  obtain ⟨still, course, none⟩ := second lends
  rw [bind_ok returned]
  exact ⟨still, (first.finished done lends).append course, none⟩

theorem skip {next : α → Act V (Ledger V σ) β} {exit : Exit V}
    (first : Settles before act world deeds after) (left : (act world).1 = .error exit) :
    Settles before (act >>= next) world deeds after := by
  intro lends
  obtain ⟨still, course, none⟩ := first lends
  rw [bind_error left]
  rw [left] at none
  exact ⟨still, course, fun finished => none (by simpa using finished)⟩

theorem attempt (body : Settles before act world deeds after) :
    Settles before act.attempt world (deeds ++ [.other]) after := by
  intro lends
  obtain ⟨still, course, none⟩ := body lends
  refine ⟨still, course.append (Does.course (.other attempt_unmoved)), fun finished => none ?_⟩
  exact fun aborted => finished (attempt_aborted aborted)

theorem cleanup {clean : Act V (Ledger V σ) Unit} {object : Thrown V}
    (body : Settles before act world deeds middle)
    (unwound : (act world).1 = .error (.unwinding object))
    (cleaning : Settles middle clean (act world).2 more after) :
    Settles before (act.onUnwinding clean) world (deeds ++ more) after := by
  have done : (act world).1 ≠ .error .aborted := by rw [unwound]; simp
  intro lends
  obtain ⟨still, course, none⟩ := cleaning lends
  rw [onUnwinding_cleanup unwound]
  refine ⟨still, (body.finished done lends).append course, fun finished => none ?_⟩
  intro aborted
  rw [aborted] at finished
  exact finished rfl

theorem passed {clean : Act V (Ledger V σ) Unit} (body : Settles before act world deeds after)
    (intact : ∀ object, (act world).1 ≠ .error (.unwinding object)) :
    Settles before (act.onUnwinding clean) world deeds after := by
  unfold Settles
  rwa [onUnwinding_passed intact]

theorem pack {quiet : Quiet V (Ledger V σ) (List (Payload V))}
    (body : Settles before (quietly quiet) world deeds
      (.values (quiet world).1 + after)) :
    Settles before (quietly quiet) world (deeds ++ [.other])
      (.parcel (quiet world).1 ::ₘ after) :=
  fun lends => ⟨[], (body.course lends).append (Does.course (.pack _)), fun _ => rfl⟩

end Settles

section Lending

variable [Client V σ] {α : Type} {before middle after : Hand V} {world : World V (Ledger V σ)}
  {lend : Lend V} {use : lend.key.Value → Act V (Ledger V σ) α} {deeds more : List (Deed V)}

theorem restore_apply (lend : Lend V) (world : World V (Ledger V σ)) :
    Slot.restore lend.key lend.owner lend.id lend.value world =
      if lend.isWelcome world then ((), lend.giveBack world)
      else release lend.key lend.value world := by
  have read : Slot.stack lend.key world = (world.thread.stack lend.key, world) := rfl
  unfold Slot.restore Lend.isWelcome
  simp only [bind, StateT.bind, read]
  rcases (world.thread.stack lend.key).frameOf? lend.owner with _ | ⟨_, _, _ | held⟩ <;> rfl

theorem lend_aborted (takes : lend.Takes world)
    (aborted : (use lend.value (lend.taken world)).1 = .error .aborted) :
    Slot.lend lend.key lend.id use world =
      (.error .aborted, (use lend.value (lend.taken world)).2) := by
  obtain ⟨top, innermost, theirs⟩ := takes.innermost
  rw [lend_apply innermost takes.held, map_apply, ensuring_quietly_apply]
  change (use lend.value (Slot.takeFor lend.key lend.id world).2).1 = _ at aborted
  rw [aborted]
  rfl

/-- A lent value is offered back once its use returns or unwinds. -/
theorem lend_finished (takes : lend.Takes world)
    (finished : (use lend.value (lend.taken world)).1 ≠ .error .aborted) :
    (Slot.lend lend.key lend.id use world).1 ≠ .error .aborted ∧
      (Slot.lend lend.key lend.id use world).2 =
        (Slot.restore lend.key lend.owner lend.id lend.value
          (use lend.value (lend.taken world)).2).2 := by
  obtain ⟨top, innermost, theirs⟩ := takes.innermost
  rw [lend_apply innermost takes.held, map_apply, ensuring_quietly_apply, theirs]
  change (use lend.value (Slot.takeFor lend.key lend.id world).2).1 ≠ _ at finished
  rcases result : (use lend.value (Slot.takeFor lend.key lend.id world).2).1 with
    (object | _) | answer
  · exact ⟨by simp, rfl⟩
  · exact absurd result finished
  · exact ⟨by simp, rfl⟩

theorem Settles.lendNothing {hand : Hand V} {key : Key V} {id : Nat}
    {use : key.Value → Act V (Ledger V σ) α}
    (absent : (world.thread.stack key).valueFor id = none) :
    Settles hand (Slot.lend key id use) world [.other] hand := by
  refine .idle ?_
  rw [lendNothing_apply absent]
  exact .refl world

theorem Lend.Takes.does (takes : lend.Takes world) {hand : Hand V} (lends : List (Lend V)) :
    Does ⟨hand, lends, world⟩ (.lent lend) ⟨hand, lend :: lends, lend.taken world⟩ := by
  obtain ⟨top, innermost, theirs⟩ := takes.innermost
  exact .lend lend innermost theirs takes.held

theorem Settles.lendAborted (takes : lend.Takes world)
    (body : Settles before (use lend.value) (lend.taken world) deeds after)
    (aborted : (use lend.value (lend.taken world)).1 = .error .aborted) :
    Settles before (Slot.lend lend.key lend.id use) world (.lent lend :: deeds) after := by
  intro lends
  obtain ⟨still, course, -⟩ := body (lend :: lends)
  rw [lend_aborted takes aborted]
  refine ⟨still ++ [lend], .step (takes.does lends) ?_, fun finished => absurd rfl finished⟩
  rwa [List.append_assoc]

theorem Settles.lendBack (takes : lend.Takes world)
    (body : Settles before (use lend.value) (lend.taken world) deeds after)
    (finished : (use lend.value (lend.taken world)).1 ≠ .error .aborted)
    (welcome : lend.isWelcome (use lend.value (lend.taken world)).2 = true) :
    Settles before (Slot.lend lend.key lend.id use) world
      (.lent lend :: (deeds ++ [.returned lend true])) after := by
  obtain ⟨-, back⟩ := lend_finished takes finished
  rw [restore_apply, if_pos welcome] at back
  refine fun lends => ⟨[], .step (takes.does lends) ?_, fun _ => rfl⟩
  rw [back]
  exact (body.finished finished (lend :: lends)).append (Does.course (.giveBack lend welcome))

theorem Settles.lendOver (takes : lend.Takes world)
    (body : Settles before (use lend.value) (lend.taken world) deeds middle)
    (finished : (use lend.value (lend.taken world)).1 ≠ .error .aborted)
    (unwelcome : lend.isWelcome (use lend.value (lend.taken world)).2 = false)
    (ends : Settles (.value ⟨lend.key, lend.value⟩ ::ₘ middle)
      (quietly (release lend.key lend.value)) (use lend.value (lend.taken world)).2 more after) :
    Settles before (Slot.lend lend.key lend.id use) world
      (.lent lend :: (deeds ++ .returned lend false :: more)) after := by
  obtain ⟨-, back⟩ := lend_finished takes finished
  rw [restore_apply, if_neg (by simp [unwelcome])] at back
  refine fun lends => ⟨[], .step (takes.does lends) ?_, fun _ => rfl⟩
  rw [back]
  exact (body.finished finished (lend :: lends)).append
    (.step (.keepBack lend unwelcome) (ends.course lends))

end Lending

section Threads

variable [Client V σ] {α : Type} {given middle brought kept : Hand V} {world : World V (Ledger V σ)}
  {act : Act V (Ledger V σ) α} {deeds more : List (Deed V)}

theorem spawn_finished (finished : (act { world with thread := .fresh V }).1 ≠ .error .aborted) :
    (spawn act world).1 ≠ .error .aborted ∧ (spawn act world).2 =
      { (endStored (threadEnd act world).thread.store (threadEnd act world).withoutStorage).2 with
        thread := world.thread } := by
  obtain ⟨ended, returned⟩ := attempt_finished finished
  have shape : spawn act world = (.ok ended,
      { (Slot.endStorage (threadEnd act world)).2 with thread := world.thread }) := by
    unfold spawn Act.onThread
    rw [bind_ok returned]
    rfl
  rw [shape, endStorage_eq_endStored]
  exact ⟨by simp, rfl⟩

/-- The storage of a thread stays ended whatever the destructors do. -/
theorem Settles.spawn (portable : ∀ holding ∈ given + brought, holding.isPortable = true)
    (body : Settles given act { world with thread := .fresh V } deeds middle)
    (finished : (act { world with thread := .fresh V }).1 ≠ .error .aborted)
    (ends : Settles (.values (threadEnd act world).thread.payloads + middle)
      (quietly (endStored (threadEnd act world).thread.store)) (threadEnd act world).withoutStorage
      more brought) :
    Settles (given + kept) (spawn act) world
      ((deeds ++ .other :: .storageEnded (threadEnd act world).thread.payloads :: more).map
        .elsewhere) (brought + kept) := by
  obtain ⟨-, last⟩ := spawn_finished finished
  have ending := ends.course []
  have inner := (body.finished finished []).append
    (.step (.other attempt_unmoved) (.step .endStorage ending))
  have gone := ending.storage_gone rfl
  intro lends
  refine ⟨[], ?_, fun _ => rfl⟩
  rw [last, ← List.append_nil (List.map _ _)]
  exact .thread portable inner gone (.done _)

end Threads

/-- Every execution of a linear program is the course of its deeds, and ends with what the judgement
says. -/
theorem Linear.settles [Client V σ] {α : Type} {before after : Hand V}
    {act : Act V (Ledger V σ) α} {world : World V (Ledger V σ)} {deeds : List (Deed V)}
    (linear : Linear before act world deeds after) : Settles before act world deeds after := by
  -- one case for each rule, by the step lemma of that rule
  induction linear with
  | idle unmoved => exact .idle unmoved
  | bind _ returned _ first second => exact first.bind returned second
  | skip _ left first => exact first.skip left
  | attempt _ body => exact body.attempt
  | cleanup _ unwound _ body cleaning => exact body.cleanup unwound cleaning
  | passed _ intact body => exact body.passed intact
  | supplied _ returns _ body =>
      unfold Settles at *
      rwa [returns] at body
  | make kind value => exact .once fun _ => .make ⟨.app kind, value⟩
  | @release hand after world deeds key value _ parts =>
      exact .step (fun _ => .finish ⟨key, value⟩)
        (quietly_congr (release_eq_parting key value world)) parts
  | @record hand after world deeds key value id _ settles =>
      exact .step (fun _ => .put key id.raw value)
        (quietly_congr (congrFun (recordEnding_eq_settle _ value id) world)) settles
  | @recordEnding hand after world deeds key ending value id _ settles =>
      exact .step (fun _ => .put key id.raw value)
        (quietly_congr (congrFun (recordEnding_eq_settle _ value id) world)) settles
  | count name id => exact .once fun _ => .count name id
  | take key id => exact .once fun _ => .take key id
  | lendNothing absent => exact .lendNothing absent
  | lendAborted takes _ aborted body => exact .lendAborted takes body aborted
  | lendBack takes _ finished welcome body => exact .lendBack takes body finished welcome
  | lendOver takes _ finished unwelcome _ body ends =>
      exact .lendOver takes body finished unwelcome ends
  | enter scope => exact .once fun _ => .enter scope
  | @leave hand world scope deeds _ leaves =>
      exact .step (fun _ => .startLeaving scope) rfl leaves
  | @close hand after world owner key rest tallies deeds _ sheds =>
      exact .step (fun _ => .close owner key rest tallies)
        (quietly_congr (congrFun (closeSlot_eq_shed owner key) world)) sheds
  | left owner tallies => exact .once fun _ => .leave owner tallies
  | arm payloads => exact .once fun _ => .arm payloads
  | @dismiss κ hand after world guard payloads deeds _ _ dismisses =>
      exact .step (fun _ => .disarm payloads) rfl dismisses
  | @drop κ hand after world guard payloads run deeds _ _ drops =>
      exact .step (fun _ => .disarm payloads) rfl drops
  | @keep hand after world object deeds _ keeps =>
      exact .step (fun _ => .make ⟨.thrown, object⟩) (by rw [World.noteMade_internal rfl]) keeps
  | collect _ collects => exact collects.pack
  | @unpack hand after world parcel deeds _ unpacks =>
      exact .step (fun _ => .unpack parcel.payloads) rfl unpacks
  | @dropParcel hand after world parcel deeds _ drops =>
      exact .step (fun _ => .unpack parcel.payloads) rfl drops
  | endStorage _ ends =>
      exact .step (fun _ => .endStorage) (quietly_congr (endStorage_eq_endStored _)) ends
  | spawn portable _ finished _ body ends => exact .spawn portable body finished ends

end FaultRelay

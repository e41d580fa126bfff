import Mathlib.Algebra.Order.Group.Multiset
import Mathlib.Data.Multiset.Filter
import FaultRelay.Proofs.Ledger
import FaultRelay.Scope

/-! What a thread does to its slots, one elementary step at a time. A scene is the world together
with what running code has in hand and what it has lent; a step names what was done, the answers of
the stacks included, and a course is a finite sequence of steps. Destructors are not atomic here:
a value ends by one step, and what its destructor does follows as further steps. -/
namespace FaultRelay

/-- What running code owns outside the slots. -/
inductive Holding (V : Vocabulary) where
  | value (payload : Payload V)
  | guard (payloads : List (Payload V))
  | parcel (payloads : List (Payload V))
  | scope (scope : OpenScope V)
  /-- A scope that is being left: its owner still has to close `rest`. -/
  | closing (owner : Token) (rest : List (Key V)) (tallies : Bool)

/-- A value that was taken out of the frame of `owner` and will be offered back. -/
structure Lend (V : Vocabulary) where
  key : Key V
  owner : Token
  id : Nat
  value : key.Value

inductive Deed (V : Vocabulary) where
  | other
  | made (payload : Payload V)
  | ended (payload : Payload V)
  | entered (scope : OpenScope V)
  | leaving (scope : OpenScope V)
  | closed (key : Key V) (owner : Token) (answer : Closed key.Value)
  | left (tallies : Bool) (before : Nat)
  | put (key : Key V) (id : Nat) (value : key.Value) (answer : Stored key.Value)
  | taken (key : Key V) (id : Nat) (answer : Option key.Value)
  | counted (name : String) (id : Nat)
  | lent (lend : Lend V)
  | returned (lend : Lend V) (accepted : Bool)
  | storageEnded (payloads : List (Payload V))
  /-- Something another thread did while this one waited for it. -/
  | elsewhere (deed : Deed V)

abbrev Hand (V : Vocabulary) := Multiset (Holding V)

structure Scene (V : Vocabulary) (σ : Type) where
  hand : Hand V
  /-- The innermost lend first. -/
  lends : List (Lend V)
  world : World V (Ledger V σ)

variable {V : Vocabulary} {σ : Type}

namespace Holding

def isPortable : Holding V → Bool
  | value _ | parcel _ => true
  | guard _ | scope _ | closing _ _ _ => false

end Holding

def Hand.values (payloads : List (Payload V)) : Hand V := ↑(payloads.map Holding.value)

@[simp] theorem Hand.values_nil : Hand.values ([] : List (Payload V)) = 0 := rfl

@[simp] theorem Hand.values_cons (payload : Payload V) (rest : List (Payload V)) :
    Hand.values (payload :: rest) = .value payload ::ₘ Hand.values rest := rfl

theorem Hand.values_append (first second : List (Payload V)) :
    Hand.values (first ++ second) = Hand.values first + Hand.values second := by
  rw [values, values, values, List.map_append, Multiset.coe_add]

def Closed.freed {α : Type} : Closed α → List α
  | propagated _ (some value) | discarded _ value => [value]
  | propagated _ none | retained | released | notOpen => []

def Stored.freed {α : Type} : Stored α → List α
  | stored (some value) | rejected value => [value]
  | stored none => []

def Key.payloads (key : Key V) (values : List key.Value) : List (Payload V) := values.map (⟨key, ·⟩)

@[simp] theorem Key.payloads_nil (key : Key V) : key.payloads [] = [] := rfl

@[simp] theorem Key.payloads_cons (key : Key V) (value : key.Value) (values : List key.Value) :
    key.payloads (value :: values) = ⟨key, value⟩ :: key.payloads values := rfl

theorem Hand.values_none (key : Key V) (hand : Hand V) :
    Hand.values (key.payloads []) + hand = hand := zero_add hand

theorem Hand.values_one (key : Key V) (value : key.Value) (hand : Hand V) :
    Hand.values (key.payloads [value]) + hand = .value ⟨key, value⟩ ::ₘ hand := by
  rw [Key.payloads_cons, values_cons, Multiset.cons_add, values_none]

/-- The values in a stack, the outermost first. -/
def Stack.values {α : Type} (stack : Stack α) : List α :=
  stack.frames.reverse.filterMap Frame.value?

def Thread.payloads (thread : Thread V) : List (Payload V) :=
  match thread.store with
  | none => []
  | some store => store.entries.flatMap fun entry => entry.1.payloads entry.2.values

def World.withoutStorage (world : World V (Ledger V σ)) : World V (Ledger V σ) :=
  { world with thread.store := none }

def World.lessTallying (tallies : Bool) (world : World V (Ledger V σ)) : World V (Ledger V σ) :=
  if tallies then { world with thread.tallying := world.thread.tallying - 1 } else world

namespace Lend

/-- Whether the innermost frame of the lender is open and empty. -/
def isWelcome (lend : Lend V) (world : World V (Ledger V σ)) : Bool :=
  match (world.thread.stack lend.key).frameOf? lend.owner with
  | some ⟨_, _, none⟩ => true
  | _ => false

def giveBack (lend : Lend V) (world : World V (Ledger V σ)) : World V (Ledger V σ) :=
  { world with
    thread := world.thread.setStack lend.key
      ((world.thread.stack lend.key).onFrame lend.owner (·.put lend.id lend.value)) }

end Lend

section Steps

variable [Client V σ]

inductive Does : Scene V σ → Deed V → Scene V σ → Prop
  | other {hand lends world later} (unmoved : Unmoved world later) :
      Does ⟨hand, lends, world⟩ .other ⟨hand, lends, later⟩
  | arm {hand lends world} (payloads : List (Payload V)) :
      Does ⟨.values payloads + hand, lends, world⟩ .other ⟨.guard payloads ::ₘ hand, lends, world⟩
  | disarm {hand lends world} (payloads : List (Payload V)) :
      Does ⟨.guard payloads ::ₘ hand, lends, world⟩ .other ⟨.values payloads + hand, lends, world⟩
  | pack {hand lends world} (payloads : List (Payload V)) :
      Does ⟨.values payloads + hand, lends, world⟩ .other ⟨.parcel payloads ::ₘ hand, lends, world⟩
  | unpack {hand lends world} (payloads : List (Payload V)) :
      Does ⟨.parcel payloads ::ₘ hand, lends, world⟩ .other ⟨.values payloads + hand, lends, world⟩
  | make {hand lends world} (payload : Payload V) :
      Does ⟨hand, lends, world⟩ (.made payload)
        ⟨.value payload ::ₘ hand, lends, world.noteMade payload⟩
  | finish {hand lends world} (payload : Payload V) :
      Does ⟨.value payload ::ₘ hand, lends, world⟩ (.ended payload)
        ⟨hand, lends, world.noteEnded payload⟩
  | enter {hand lends world} (scope : Scope V) :
      Does ⟨hand, lends, world⟩ (.entered (scope.enter world).1)
        ⟨.scope (scope.enter world).1 ::ₘ hand, lends, (scope.enter world).2⟩
  | startLeaving {hand lends world} (scope : OpenScope V) :
      Does ⟨.scope scope ::ₘ hand, lends, world⟩ (.leaving scope)
        ⟨.closing scope.token scope.interest.keys.reverse scope.tallies ::ₘ hand, lends, world⟩
  | close {hand lends world} (owner : Token) (key : Key V) (rest : List (Key V))
      (tallies : Bool) :
      Does ⟨.closing owner (key :: rest) tallies ::ₘ hand, lends, world⟩
        (.closed key owner (Slot.close key owner world).1)
        ⟨.values (key.payloads (Slot.close key owner world).1.freed) +
            .closing owner rest tallies ::ₘ hand, lends, (Slot.close key owner world).2⟩
  | leave {hand lends world} (owner : Token) (tallies : Bool) :
      Does ⟨.closing owner [] tallies ::ₘ hand, lends, world⟩ (.left tallies world.thread.tallying)
        ⟨hand, lends, world.lessTallying tallies⟩
  | put {hand lends world} (key : Key V) (id : Nat) (value : key.Value) :
      Does ⟨.value ⟨key, value⟩ ::ₘ hand, lends, world⟩
        (.put key id value (Slot.put key id value world).1)
        ⟨.values (key.payloads (Slot.put key id value world).1.freed) + hand, lends,
          (Slot.put key id value world).2⟩
  | take {hand lends world} (key : Key V) (id : Nat) :
      Does ⟨hand, lends, world⟩ (.taken key id (Slot.takeFor key id world).1)
        ⟨.values (key.payloads (Slot.takeFor key id world).1.toList) + hand, lends,
          (Slot.takeFor key id world).2⟩
  | count {hand lends world} (name : String) (id : Nat) :
      Does ⟨hand, lends, world⟩ (.counted name id)
        ⟨hand, lends, (Slot.editTop .tally (countStray name id) world).2⟩
  | lend {hand lends world} (lend : Lend V) {top : Frame lend.key.Value}
      (innermost : (world.thread.stack lend.key).top? = some top) (theirs : top.owner = lend.owner)
      (held : (world.thread.stack lend.key).valueFor lend.id = some lend.value) :
      Does ⟨hand, lends, world⟩ (.lent lend)
        ⟨hand, lend :: lends, (Slot.takeFor lend.key lend.id world).2⟩
  | giveBack {hand lends world} (lend : Lend V) (welcome : lend.isWelcome world = true) :
      Does ⟨hand, lend :: lends, world⟩ (.returned lend true) ⟨hand, lends, lend.giveBack world⟩
  | keepBack {hand lends world} (lend : Lend V) (unwelcome : lend.isWelcome world = false) :
      Does ⟨hand, lend :: lends, world⟩ (.returned lend false)
        ⟨.value ⟨lend.key, lend.value⟩ ::ₘ hand, lends, world⟩
  | endStorage {hand lends world} :
      Does ⟨hand, lends, world⟩ (.storageEnded world.thread.payloads)
        ⟨.values world.thread.payloads + hand, lends, world.withoutStorage⟩

/-- A run as a sequence of steps. A thread that is waited for is a run of its own: it starts fresh
with what it was given, and its storage has ended when the waiting thread goes on. -/
inductive Course : Scene V σ → List (Deed V) → Scene V σ → Prop
  | done (scene : Scene V σ) : Course scene [] scene
  | step {first next last : Scene V σ} {deed : Deed V} {deeds : List (Deed V)}
      (does : Does first deed next) (rest : Course next deeds last) :
      Course first (deed :: deeds) last
  | thread {given kept brought : Hand V} {lends : List (Lend V)}
      {world later : World V (Ledger V σ)} {within deeds : List (Deed V)} {last : Scene V σ}
      (portable : ∀ holding ∈ given + brought, holding.isPortable = true)
      (inner : Course ⟨given, [], { world with thread := .fresh V }⟩ within ⟨brought, [], later⟩)
      (ended : later.thread.store = none)
      (rest : Course ⟨brought + kept, lends, { later with thread := world.thread }⟩ deeds last) :
      Course ⟨given + kept, lends, world⟩ (within.map .elsewhere ++ deeds) last

theorem Course.append {first middle last : Scene V σ} {before after : List (Deed V)}
    (course : Course first before middle) (further : Course middle after last) :
    Course first (before ++ after) last := by
  induction course with
  | done => exact further
  | step does _ ih => exact .step does (ih further)
  | thread portable inner ended _ _ ih =>
      rw [List.append_assoc]
      exact .thread portable inner ended (ih further)

theorem Does.course {first last : Scene V σ} {deed : Deed V} (does : Does first deed last) :
    Course first [deed] last := .step does (.done last)

/-- Each deed that the thread itself did was a step between two scenes of the course. -/
theorem Course.at {first last : Scene V σ} {earlier later : List (Deed V)} {deed : Deed V}
    (course : Course first (earlier ++ deed :: later) last) (own : ∀ theirs, deed ≠ .elsewhere theirs) :
    ∃ here there, Course first earlier here ∧ Does here deed there ∧ Course there later last := by
  generalize whole : earlier ++ deed :: later = deeds at course
  induction course generalizing earlier with
  | done => simp at whole
  | step does rest ih =>
      cases earlier with
      | nil =>
          cases whole
          exact ⟨_, _, .done _, does, rest⟩
      | cons before earlier =>
          cases whole
          obtain ⟨here, there, course, done, further⟩ := ih rfl
          exact ⟨here, there, .step does course, done, further⟩
  | @thread given kept brought lends world last within deeds _ portable inner ended _ _ ih =>
      obtain ⟨others, rfl, shape⟩ : ∃ others, earlier = within.map .elsewhere ++ others ∧
          others ++ deed :: later = deeds := by
        rcases List.append_eq_append_iff.1 whole with ⟨others, split, shape⟩ | ⟨others, split, shape⟩
        · cases others with
          | nil => exact ⟨[], by simpa using split.symm, by simpa using shape⟩
          | cons next rest =>
              have listed : deed ∈ within.map Deed.elsewhere := by
                rw [split, (List.cons.inj shape).1]
                simp
              obtain ⟨theirs, -, rfl⟩ := List.mem_map.1 listed
              exact absurd rfl (own theirs)
        · exact ⟨others, split, shape.symm⟩
      obtain ⟨here, there, course, done, further⟩ := ih shape
      exact ⟨here, there, .thread portable inner ended course, done, further⟩

end Steps

end FaultRelay

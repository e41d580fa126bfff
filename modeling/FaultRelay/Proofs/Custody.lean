import FaultRelay.Proofs.Contents
import FaultRelay.Proofs.Echo
import FaultRelay.Proofs.Outline
import Mathlib.Data.Multiset.Bind

/-! Where the values of a type are. A value that was made is in a frame, on loan, loose in the hands
of running code, in an armed guard, in a parcel, or has ended; values move between these places and
are neither copied nor lost. The tally is left out: the library rewrites it in place. -/
namespace FaultRelay

variable {V : Vocabulary} {σ : Type}

namespace Holding

def loose : Holding V → List (Payload V)
  | value payload => [payload]
  | guard _ | parcel _ | scope _ | closing _ _ _ => []

def guarded : Holding V → List (Payload V)
  | guard payloads => payloads
  | value _ | parcel _ | scope _ | closing _ _ _ => []

def packed : Holding V → List (Payload V)
  | parcel payloads => payloads
  | value _ | guard _ | scope _ | closing _ _ _ => []

def payloads (holding : Holding V) : List (Payload V) :=
  holding.loose ++ (holding.guarded ++ holding.packed)

end Holding

def Hand.within (part : Holding V → List (Payload V)) (key : Key V) (hand : Hand V) :
    Multiset key.Value :=
  hand.bind fun holding => FaultRelay.valuesOf key (part holding)

def Hand.owned (key : Key V) (hand : Hand V) : Multiset key.Value :=
  Hand.within Holding.payloads key hand

namespace Hand

variable {key : Key V}

theorem owned_eq (key : Key V) (hand : Hand V) :
    owned key hand =
      within Holding.loose key hand +
        (within Holding.guarded key hand + within Holding.packed key hand) := by
  unfold owned within Holding.payloads
  simp only [valuesOf_append, Multiset.bind_add]

theorem owned_cons (key : Key V) (holding : Holding V) (hand : Hand V) :
    owned key (holding ::ₘ hand) = valuesOf key holding.payloads + owned key hand :=
  Multiset.cons_bind _ _ _

theorem owned_add (key : Key V) (first second : Hand V) :
    owned key (first + second) = owned key first + owned key second :=
  Multiset.add_bind _ _ _

theorem owned_value (key : Key V) (payload : Payload V) (hand : Hand V) :
    owned key (.value payload ::ₘ hand) = valuesOf key [payload] + owned key hand :=
  owned_cons key _ hand

theorem owned_guard (key : Key V) (payloads : List (Payload V)) (hand : Hand V) :
    owned key (.guard payloads ::ₘ hand) = valuesOf key payloads + owned key hand := by
  rw [owned_cons, Holding.payloads, Holding.guarded, Holding.packed, List.append_nil]
  rfl

theorem owned_parcel (key : Key V) (payloads : List (Payload V)) (hand : Hand V) :
    owned key (.parcel payloads ::ₘ hand) = valuesOf key payloads + owned key hand :=
  owned_cons key _ hand

theorem owned_scope (key : Key V) (scope : OpenScope V) (hand : Hand V) :
    owned key (.scope scope ::ₘ hand) = owned key hand := by
  rw [owned_cons]
  exact zero_add _

theorem owned_closing (key : Key V) (owner : Token) (rest : List (Key V)) (tallies : Bool)
    (hand : Hand V) : owned key (.closing owner rest tallies ::ₘ hand) = owned key hand := by
  rw [owned_cons]
  exact zero_add _

theorem owned_values (key : Key V) (payloads : List (Payload V)) :
    owned key (.values payloads) = valuesOf key payloads := by
  induction payloads with
  | nil => rfl
  | cons payload rest ih =>
      rw [values_cons, owned_value, ih]
      exact (valuesOf_cons key payload rest).symm

end Hand

def Lend.payload (lend : Lend V) : Payload V := ⟨lend.key, lend.value⟩

namespace Scene

def stored (key : Key V) (scene : Scene V σ) : Multiset key.Value :=
  (scene.world.thread.stack key).contents

def lent (key : Key V) (scene : Scene V σ) : Multiset key.Value :=
  valuesOf key (scene.lends.map Lend.payload)

/-- The values of type `key` that the slots answer for. -/
def slots (key : Key V) (scene : Scene V σ) : Multiset key.Value := scene.stored key + scene.lent key

end Scene

namespace Deed

def arriving : Deed V → List (Payload V)
  | put key _ value answer => key.payloads (answer.accepted value)
  | _ => []

/-- The values that a deed of the thread moved out of the slots. -/
def departing : Deed V → List (Payload V)
  | put key _ _ answer => key.payloads answer.replaced
  | closed key _ answer => key.payloads answer.freed
  | taken key _ answer => key.payloads answer.toList
  | returned lend false => [lend.payload]
  | storageEnded payloads => payloads
  | _ => []

def making : Deed V → List (Payload V)
  | made payload => [payload]
  | elsewhere deed => deed.making
  | _ => []

def ending : Deed V → List (Payload V)
  | ended payload => [payload]
  | elsewhere deed => deed.ending
  | _ => []

end Deed

def Thread.isTidy (thread : Thread V) : Prop := ∀ store ∈ thread.store, Store.isTidy store

theorem Thread.valuesOf_all {thread : Thread V} (tidy : thread.isTidy) (key : Key V) :
    valuesOf key thread.payloads = (thread.stack key).contents := by
  obtain ⟨_ | store, lastToken, tallying, current, reserved, unwindings⟩ := thread
  · rfl
  · exact Store.valuesOf_entries (tidy store rfl) key

theorem Thread.isTidy_setStack {thread : Thread V} (tidy : thread.isTidy) (key : Key V)
    (stack : Stack key.Value) : (thread.setStack key stack).isTidy := by
  intro store stored
  obtain ⟨before, found, rfl⟩ := Option.map_eq_some_iff.1 (Option.mem_def.1 stored)
  exact Store.isTidy_set (tidy before found) key stack

theorem Thread.isTidy_openAll {thread : Thread V} (tidy : thread.isTidy) (owner : Token)
    (keys : List (Key V)) : (thread.openAll owner keys).isTidy := by
  induction keys generalizing thread with
  | nil => exact tidy
  | cons key rest ih => exact ih (isTidy_setStack tidy key _)

theorem Thread.contents_openAll (owner : Token) (keys : List (Key V)) (thread : Thread V)
    (key : Key V) : ((thread.openAll owner keys).stack key).contents =
      (thread.stack key).contents := by
  induction keys generalizing thread with
  | nil => rfl
  | cons first rest ih =>
      rw [openAll_cons, ih]
      by_cases gone : thread.store = none
      · rw [setStack_gone gone]
      · by_cases here : key = first
        · subst here
          rw [stack_setStack gone, Stack.contents_openFor]
        · rw [stack_setStack_other _ _ here]

theorem Thread.contents_setStack {thread : Thread V} {key : Key V} {stack : Stack key.Value}
    (added removed : List key.Value)
    (law : (thread.stack key).contents + ↑added = stack.contents + ↑removed)
    (unopened : thread.store = none → added = []) (other : Key V) :
    (thread.stack other).contents + valuesOf other (key.payloads added) =
      ((thread.setStack key stack).stack other).contents +
        valuesOf other (key.payloads removed) := by
  by_cases here : other = key
  · subst here
    rw [valuesOf_payloads, valuesOf_payloads]
    by_cases gone : thread.store = none
    · have none : stack.contents + ↑removed = 0 := by
        rw [← law, unopened gone, stack_gone gone]
        rfl
      have nothing : (↑removed : Multiset other.Value) = 0 := by
        apply Multiset.le_zero.1
        rw [← none]
        exact Multiset.le_add_left _ _
      rw [setStack_gone gone, unopened gone, nothing]
      rfl
    · rw [stack_setStack gone, law]
  · rw [stack_setStack_other _ _ here, valuesOf_other (Ne.symm here),
      valuesOf_other (Ne.symm here)]

section Lending

variable {hand others : Hand V} {lends : List (Lend V)} {lend : Lend V}
  {world : World V (Ledger V σ)}

theorem Scene.lent_cons (key : Key V) :
    Scene.lent key ⟨hand, lend :: lends, world⟩ =
      valuesOf key [lend.payload] + valuesOf key (lends.map Lend.payload) :=
  valuesOf_cons key lend.payload _

theorem Scene.slots_lend (held : (world.thread.stack lend.key).valueFor lend.id = some lend.value)
    (key : Key V) :
    Scene.slots key ⟨hand, lends, world⟩ =
      Scene.slots key ⟨others, lend :: lends, (Slot.takeFor lend.key lend.id world).2⟩ := by
  have law := Thread.contents_setStack [] _
    ((add_zero _).trans (Stack.contents_takeFor lend.id (world.thread.stack lend.key)))
    (fun _ => rfl) key
  have taken : ((world.thread.stack lend.key).takeFor lend.id).1 = some lend.value := held
  have value : lend.key.payloads (some lend.value).toList = [lend.payload] := rfl
  rw [taken, value, Key.payloads_nil, valuesOf_nil, add_zero] at law
  unfold Scene.slots
  rw [lent_cons, ← add_assoc]
  exact congrArg (· + valuesOf key (lends.map Lend.payload)) law

theorem Scene.slots_giveBack (welcome : lend.isWelcome world = true) (key : Key V) :
    Scene.slots key ⟨hand, lend :: lends, world⟩ =
      Scene.slots key ⟨others, lends, lend.giveBack world⟩ := by
  obtain ⟨frame, found, empty⟩ := lend.isWelcome_iff.1 welcome
  have opened : world.thread.store = none → [lend.value] = [] := by
    intro gone
    rw [Thread.stack_gone gone] at found
    cases found
  have law := Thread.contents_setStack _ []
    ((Stack.contents_onFrame lend.id lend.value found empty).symm.trans (add_zero _).symm)
    opened key
  have value : lend.key.payloads [lend.value] = [lend.payload] := rfl
  rw [value, Key.payloads_nil, valuesOf_nil, add_zero] at law
  unfold Scene.slots
  rw [lent_cons, ← add_assoc]
  exact congrArg (· + valuesOf key (lends.map Lend.payload)) law

theorem Scene.slots_keepBack (lend : Lend V) (key : Key V) :
    Scene.slots key ⟨hand, lend :: lends, world⟩ =
      Scene.slots key ⟨others, lends, world⟩ + valuesOf key [lend.payload] := by
  unfold Scene.slots
  rw [lent_cons, add_comm (valuesOf key [lend.payload]), ← add_assoc]
  rfl

end Lending

section Steps

variable [Client V σ] {first last : Scene V σ} {deed : Deed V}

theorem Does.tidy (does : Does first deed last) (tidy : first.world.thread.isTidy) :
    last.world.thread.isTidy := by
  cases does with
  | other unmoved =>
      unfold Thread.isTidy
      rw [unmoved.store]
      exact tidy
  | enter scope =>
      rw [enter_thread]
      exact Thread.isTidy_openAll tidy _ _
  | leave owner tallies => cases tallies <;> exact tidy
  | close | put | take | count | lend | giveBack => exact Thread.isTidy_setStack tidy _ _
  | endStorage =>
      intro store stored
      cases stored
  | arm | disarm | pack | unpack | make | finish | startLeaving | keepBack => exact tidy

/-- The slots of a type change by what arrives and what departs. -/
theorem Does.slots (does : Does first deed last) (tidy : first.world.thread.isTidy) {key : Key V}
    (recorded : key ≠ .tally) :
    first.slots key + valuesOf key deed.arriving = last.slots key + valuesOf key deed.departing := by
  -- the lends change only where a value is lent; elsewhere the frames alone carry the law
  have moved : ∀ {added removed : List (Payload V)},
      first.stored key + valuesOf key added = last.stored key + valuesOf key removed →
      last.lends = first.lends → deed.arriving = added → deed.departing = removed →
      first.slots key + valuesOf key deed.arriving =
        last.slots key + valuesOf key deed.departing := by
    rintro added removed law lends rfl rfl
    unfold Scene.slots Scene.lent
    rw [add_right_comm, law, lends, add_right_comm]
  have still : last.stored key = first.stored key → last.lends = first.lends →
      deed.arriving = [] → deed.departing = [] →
      first.slots key + valuesOf key deed.arriving =
        last.slots key + valuesOf key deed.departing :=
    fun stored lends => moved (congrArg (· + 0) stored.symm) lends
  cases does with
  | other unmoved =>
      refine still ?_ rfl rfl rfl
      unfold Scene.stored
      rw [unmoved.stack]
  | arm | disarm | pack | unpack | make | finish | startLeaving => exact still rfl rfl rfl rfl
  | enter scope =>
      refine still ?_ rfl rfl rfl
      unfold Scene.stored
      rw [enter_thread]
      exact Thread.contents_openAll _ _ _ key
  | leave owner tallies => cases tallies <;> exact still rfl rfl rfl rfl
  | @close hand lends world owner type rest tallies =>
      have law := Thread.contents_setStack [] _
        ((add_zero _).trans (Stack.contents_close owner (world.thread.stack type)))
        (fun _ => rfl) key
      exact moved law rfl rfl rfl
  | @put hand lends world type id value =>
      have unopened : world.thread.store = none →
          ((world.thread.stack type).put id value).1.accepted value = [] := by
        intro gone
        rw [Thread.stack_gone gone]
        rfl
      have law := Thread.contents_setStack _ _
        (Stack.contents_put id value (world.thread.stack type)) unopened key
      exact moved law rfl rfl rfl
  | @take hand lends world type id =>
      have law := Thread.contents_setStack [] _
        ((add_zero _).trans (Stack.contents_takeFor id (world.thread.stack type)))
        (fun _ => rfl) key
      exact moved law rfl rfl rfl
  | count name id =>
      refine still ?_ rfl rfl rfl
      exact congrArg Stack.contents (Thread.stack_setStack_other _ _ recorded)
  | lend lend innermost theirs held => exact congrArg (· + 0) (Scene.slots_lend held key)
  | giveBack lend welcome => exact congrArg (· + 0) (Scene.slots_giveBack welcome key)
  | keepBack lend unwelcome => exact (add_zero _).trans (Scene.slots_keepBack lend key)
  | @endStorage hand lends world =>
      have all := Thread.valuesOf_all tidy key
      change _ + _ + 0 = 0 + _ + valuesOf key world.thread.payloads
      rw [all, add_zero, zero_add, add_comm]
      rfl

omit [Client V σ] in
/-- A put frees what it was given and what gave way, but for what it accepted. -/
theorem put_exchange {type : Key V} (key : Key V) (id : Nat) (value : type.Value)
    (stack : Stack type.Value) :
    valuesOf key [⟨type, value⟩] + valuesOf key (type.payloads (stack.put id value).1.replaced) =
      valuesOf key (type.payloads (stack.put id value).1.freed) +
        valuesOf key (type.payloads ((stack.put id value).1.accepted value)) := by
  obtain ⟨_ | ⟨top, below⟩⟩ := stack
  · rfl
  · have freed : ((⟨top :: below⟩ : Stack type.Value).put id value).1.freed =
        top.value?.toList := by
      cases previous : top.value? <;> simp [Stack.put, Stored.freed, previous]
    rw [freed, add_comm]
    rfl

theorem Does.hands (does : Does first deed last) (key : Key V) :
    first.hand.owned key + valuesOf key deed.making + valuesOf key deed.departing =
      last.hand.owned key + valuesOf key deed.ending + valuesOf key deed.arriving := by
  cases does with
  | other | count | lend | giveBack => rfl
  | arm payloads =>
      simp only [Hand.owned_add, Hand.owned_values, Hand.owned_guard]
      rfl
  | disarm payloads =>
      simp only [Hand.owned_add, Hand.owned_values, Hand.owned_guard]
      rfl
  | pack payloads =>
      simp only [Hand.owned_add, Hand.owned_values, Hand.owned_parcel]
      rfl
  | unpack payloads =>
      simp only [Hand.owned_add, Hand.owned_values, Hand.owned_parcel]
      rfl
  | make payload =>
      rw [Hand.owned_value]
      change _ + valuesOf key [payload] + 0 = _ + 0 + 0
      rw [add_zero, add_zero, add_zero, add_comm]
  | finish payload =>
      rw [Hand.owned_value]
      change _ + 0 + 0 = _ + valuesOf key [payload] + 0
      rw [add_zero, add_zero, add_zero, add_comm]
  | enter scope => rw [Hand.owned_scope]; rfl
  | startLeaving scope => rw [Hand.owned_scope, Hand.owned_closing]; rfl
  | leave owner tallies => rw [Hand.owned_closing]; cases tallies <;> rfl
  | close owner type rest tallies =>
      rw [Hand.owned_add, Hand.owned_values, Hand.owned_closing, Hand.owned_closing]
      change _ + 0 + _ = _ + 0 + 0
      rw [add_zero, add_zero, add_zero, add_comm]
      rfl
  | @put hand lends world type id value =>
      have law := put_exchange key id value (world.thread.stack type)
      rw [Hand.owned_value, Hand.owned_add, Hand.owned_values]
      change _ + 0 + _ = _ + 0 + _
      rw [add_zero, add_zero, add_right_comm, add_right_comm (valuesOf key (type.payloads _))]
      exact congrArg (· + Hand.owned key hand) law
  | take type id =>
      rw [Hand.owned_add, Hand.owned_values]
      change _ + 0 + _ = _ + 0 + 0
      rw [add_zero, add_zero, add_zero, add_comm]
      rfl
  | keepBack lend =>
      rw [Hand.owned_value]
      change _ + 0 + _ = _ + 0 + 0
      rw [add_zero, add_zero, add_zero, add_comm]
      rfl
  | endStorage =>
      rw [Hand.owned_add, Hand.owned_values]
      change _ + 0 + _ = _ + 0 + 0
      rw [add_zero, add_zero, add_zero, add_comm]
      rfl

omit [Client V σ] in
theorem valuesOf_internal {key : Key V} (plain : key.isInternal = false) {payload : Payload V}
    (internal : payload.key.isInternal = true) : valuesOf key [payload] = 0 := by
  have differ : payload.key ≠ key := by
    intro same
    rw [same, plain] at internal
    cases internal
  exact valuesOf_other differ [payload.value]

omit [Client V σ] in
theorem valuesOf_noteMade {key : Key V} (plain : key.isInternal = false) (payload : Payload V)
    (world : World V (Ledger V σ)) :
    valuesOf key (world.noteMade payload).host.made =
      valuesOf key world.host.made + valuesOf key [payload] := by
  by_cases internal : payload.key.isInternal = true
  · rw [World.noteMade_internal internal, valuesOf_internal plain internal, add_zero]
  · rw [World.noteMade, Ledger.noteMade, if_neg internal, add_comm]
    exact valuesOf_cons key payload _

omit [Client V σ] in
theorem valuesOf_noteEnded {key : Key V} (plain : key.isInternal = false) (payload : Payload V)
    (world : World V (Ledger V σ)) :
    valuesOf key (world.noteEnded payload).host.ended =
      valuesOf key world.host.ended + valuesOf key [payload] := by
  by_cases internal : payload.key.isInternal = true
  · rw [World.noteEnded_internal internal, valuesOf_internal plain internal, add_zero]
  · rw [World.noteEnded, Ledger.noteEnded, if_neg internal, add_comm]
    exact valuesOf_cons key payload _

theorem Does.accounts (does : Does first deed last) {key : Key V} (plain : key.isInternal = false) :
    valuesOf key last.world.host.made =
        valuesOf key first.world.host.made + valuesOf key deed.making ∧
      valuesOf key last.world.host.ended =
        valuesOf key first.world.host.ended + valuesOf key deed.ending := by
  cases does with
  | other unmoved =>
      rw [unmoved.made, unmoved.ended]
      exact ⟨(add_zero _).symm, (add_zero _).symm⟩
  | make payload =>
      refine ⟨valuesOf_noteMade plain payload _, ?_⟩
      refine (congrArg (valuesOf key) ?_).trans (add_zero _).symm
      unfold World.noteMade Ledger.noteMade
      split <;> rfl
  | finish payload =>
      refine ⟨?_, valuesOf_noteEnded plain payload _⟩
      refine (congrArg (valuesOf key) ?_).trans (add_zero _).symm
      unfold World.noteEnded Ledger.noteEnded
      split <;> rfl
  | enter scope =>
      rw [enter_made, enter_ended]
      exact ⟨(add_zero _).symm, (add_zero _).symm⟩
  | leave owner tallies => cases tallies <;> exact ⟨(add_zero _).symm, (add_zero _).symm⟩
  | arm | disarm | pack | unpack | startLeaving | close | put | take | count | lend | giveBack
  | keepBack | endStorage => exact ⟨(add_zero _).symm, (add_zero _).symm⟩

section Departures

omit [Client V σ]

variable {world : World V (Ledger V σ)} {key : Key V} {payload : Payload V}

end Departures

end Steps

section Runs

variable [Client V σ] {first last : Scene V σ} {deeds : List (Deed V)}

theorem Course.slots (course : Course first deeds last) (tidy : first.world.thread.isTidy)
    {key : Key V} (recorded : key ≠ .tally) :
    first.slots key + valuesOf key (deeds.flatMap Deed.arriving) =
      last.slots key + valuesOf key (deeds.flatMap Deed.departing) := by
  induction course with
  | done => rfl
  | step does _ ih =>
      have now := does.slots tidy recorded
      have later := ih (does.tidy tidy)
      rw [List.flatMap_cons, List.flatMap_cons, valuesOf_append, valuesOf_append, ← add_assoc, now,
        add_right_comm, later, add_right_comm, add_assoc]
  | @thread given kept brought lends world later within deeds last portable inner ended rest _ ih =>
      have arriving : (within.map Deed.elsewhere).flatMap Deed.arriving = [] := by
        simp [List.flatMap_eq_nil_iff, Deed.arriving]
      have departing : (within.map Deed.elsewhere).flatMap Deed.departing = [] := by
        simp [List.flatMap_eq_nil_iff, Deed.departing]
      rw [List.flatMap_append, List.flatMap_append, arriving, departing]
      exact ih tidy

theorem Deed.flatMap_elsewhere_making (within : List (Deed V)) :
    (within.map elsewhere).flatMap making = within.flatMap making := by
  rw [List.flatMap_map]
  rfl

theorem Deed.flatMap_elsewhere_ending (within : List (Deed V)) :
    (within.map elsewhere).flatMap ending = within.flatMap ending := by
  rw [List.flatMap_map]
  rfl

theorem Course.custody (course : Course first deeds last) (tidy : first.world.thread.isTidy)
    {key : Key V} (recorded : key ≠ .tally) :
    first.slots key + first.hand.owned key + valuesOf key (deeds.flatMap Deed.making) =
      last.slots key + last.hand.owned key + valuesOf key (deeds.flatMap Deed.ending) := by
  induction course with
  | done => rfl
  | @step first next last deed deeds does rest ih =>
      have slots := does.slots tidy recorded
      have hands := does.hands key
      have later := ih (does.tidy tidy)
      have now : first.slots key + first.hand.owned key + valuesOf key deed.making =
          next.slots key + next.hand.owned key + valuesOf key deed.ending := by
        apply add_right_cancel (b := valuesOf key deed.arriving + valuesOf key deed.departing)
        -- what the deed puts and takes cancels between slots and hand
        calc first.slots key + first.hand.owned key + valuesOf key deed.making +
              (valuesOf key deed.arriving + valuesOf key deed.departing)
            = (first.slots key + valuesOf key deed.arriving) +
              (first.hand.owned key + valuesOf key deed.making + valuesOf key deed.departing) := by
              abel
          _ = (next.slots key + valuesOf key deed.departing) +
              (next.hand.owned key + valuesOf key deed.ending + valuesOf key deed.arriving) := by
              rw [slots, hands]
          _ = _ := by abel
      rw [List.flatMap_cons, List.flatMap_cons, valuesOf_append, valuesOf_append, ← add_assoc, now,
        add_right_comm, later]
      abel
  | @thread given kept brought lends world later within deeds last portable inner ended rest innerIh
      ih =>
      -- the other thread starts with empty slots and ends with none, so only hands count
      have inside : 0 + Hand.owned key given + valuesOf key (within.flatMap Deed.making) =
          0 + Hand.owned key brought + valuesOf key (within.flatMap Deed.ending) := by
        have fresh : Thread.isTidy (.fresh V) := by
          rintro store stored
          cases stored
          exact List.nodup_nil
        have gone : later.thread.stack key = .empty := Thread.stack_gone ended key
        have law := innerIh fresh
        unfold Scene.slots Scene.stored at law
        rw [gone] at law
        exact law
      have outer := ih tidy
      rw [Hand.owned_add] at outer ⊢
      rw [List.flatMap_append, List.flatMap_append, Deed.flatMap_elsewhere_making,
        Deed.flatMap_elsewhere_ending, valuesOf_append, valuesOf_append]
      rw [zero_add, zero_add] at inside
      change Scene.slots key ⟨given + kept, lends, world⟩ + _ + _ = _ at outer
      calc Scene.slots key ⟨given + kept, lends, world⟩ +
            (Hand.owned key given + Hand.owned key kept) +
            (valuesOf key (within.flatMap Deed.making) + valuesOf key (deeds.flatMap Deed.making))
          = (Hand.owned key given + valuesOf key (within.flatMap Deed.making)) +
            (Scene.slots key ⟨given + kept, lends, world⟩ + Hand.owned key kept +
              valuesOf key (deeds.flatMap Deed.making)) := by abel
        _ = (Scene.slots key ⟨given + kept, lends, world⟩ +
              (Hand.owned key brought + Hand.owned key kept) +
              valuesOf key (deeds.flatMap Deed.making)) +
            valuesOf key (within.flatMap Deed.ending) := by rw [inside]; abel
        _ = _ := by rw [outer]; abel

theorem Course.accounts (course : Course first deeds last) {key : Key V}
    (plain : key.isInternal = false) :
    valuesOf key last.world.host.made =
        valuesOf key first.world.host.made + valuesOf key (deeds.flatMap Deed.making) ∧
      valuesOf key last.world.host.ended =
        valuesOf key first.world.host.ended + valuesOf key (deeds.flatMap Deed.ending) := by
  induction course with
  | done => exact ⟨(add_zero _).symm, (add_zero _).symm⟩
  | step does _ ih =>
      obtain ⟨made, ended⟩ := does.accounts plain
      obtain ⟨madeLater, endedLater⟩ := ih
      rw [List.flatMap_cons, List.flatMap_cons, valuesOf_append, valuesOf_append, ← add_assoc,
        ← add_assoc, ← made, ← ended]
      exact ⟨madeLater, endedLater⟩
  | thread portable inner gone rest innerIh ih =>
      obtain ⟨made, ended⟩ := innerIh
      obtain ⟨madeLater, endedLater⟩ := ih
      rw [List.flatMap_append, List.flatMap_append, Deed.flatMap_elsewhere_making,
        Deed.flatMap_elsewhere_ending, valuesOf_append, valuesOf_append, ← add_assoc, ← add_assoc]
      rw [made] at madeLater
      rw [ended] at endedLater
      exact ⟨madeLater, endedLater⟩

end Runs

/-- Everywhere a value of the kind can be: the frames of the thread, its loans, what running code
has in hand by itself, in an armed guard or in a parcel, the values that have ended, and what is
kept elsewhere in the process. -/
def Scene.places (kind : V.Kind) (elsewhere : Multiset (V.Value kind)) (scene : Scene V σ) :
    Multiset (V.Value kind) :=
  scene.stored (.app kind) + scene.lent (.app kind) +
    Hand.within Holding.loose (.app kind) scene.hand +
    Hand.within Holding.guarded (.app kind) scene.hand +
    Hand.within Holding.packed (.app kind) scene.hand +
    valuesOf (.app kind) scene.world.host.ended + elsewhere

/-- Every value of the kind that was made is in one of the places, as often as it was made. -/
def Balanced (kind : V.Kind) (elsewhere : Multiset (V.Value kind)) (scene : Scene V σ) : Prop :=
  valuesOf (.app kind) scene.world.host.made = scene.places kind elsewhere

theorem Scene.places_eq (kind : V.Kind) (elsewhere : Multiset (V.Value kind)) (scene : Scene V σ) :
    scene.places kind elsewhere =
      scene.slots (.app kind) + scene.hand.owned (.app kind) +
        valuesOf (.app kind) scene.world.host.ended + elsewhere := by
  rw [places, slots, Hand.owned_eq]
  abel

/-- At its start a thread finds what its creator keeps among the things elsewhere. -/
theorem Balanced.thread {kind : V.Kind} {elsewhere : Multiset (V.Value kind)}
    {given kept : Hand V} {lends : List (Lend V)} {world : World V (Ledger V σ)}
    (balanced : Balanced kind elsewhere ⟨given + kept, lends, world⟩) :
    Balanced kind
      (elsewhere + (Scene.slots (.app kind) ⟨given + kept, lends, world⟩ +
        Hand.owned (.app kind) kept))
      ⟨given, [], { world with thread := .fresh V }⟩ := by
  unfold Balanced at *
  rw [Scene.places_eq] at *
  rw [Hand.owned_add] at balanced
  have nothing : Scene.slots (.app kind)
      (⟨given, [], { world with thread := .fresh V }⟩ : Scene V σ) = 0 := rfl
  rw [nothing, zero_add]
  refine balanced.trans ?_
  change _ = _ + valuesOf _ world.host.ended + _
  abel

theorem Course.balanced [Client V σ] {first last : Scene V σ} {deeds : List (Deed V)}
    (course : Course first deeds last) (tidy : first.world.thread.isTidy) {kind : V.Kind}
    {elsewhere : Multiset (V.Value kind)} (balanced : Balanced kind elsewhere first) :
    Balanced kind elsewhere last := by
  have recorded : Key.app kind ≠ .tally := by simp
  have plain : (Key.app kind).isInternal = false := rfl
  have custody := course.custody tidy recorded
  obtain ⟨made, ended⟩ := course.accounts plain
  unfold Balanced at *
  rw [Scene.places_eq] at *
  rw [made, balanced, ended]
  calc first.slots (.app kind) + first.hand.owned (.app kind) +
        valuesOf (.app kind) first.world.host.ended + elsewhere +
        valuesOf (.app kind) (deeds.flatMap Deed.making)
      = (first.slots (.app kind) + first.hand.owned (.app kind) +
          valuesOf (.app kind) (deeds.flatMap Deed.making)) +
        valuesOf (.app kind) first.world.host.ended + elsewhere := by abel
    _ = _ := by rw [custody]; abel

end FaultRelay

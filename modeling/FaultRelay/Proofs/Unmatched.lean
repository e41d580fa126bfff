import FaultRelay.Proofs.Custody
import FaultRelay.Proofs.Lending
import FaultRelay.Proofs.SplitChain

/-! A failure that no handler accepts. Asking the handlers lends values to their predicates again and
again, and leaves the slots as they are; so the block ends as its scope alone would have. Of each
type it gives up its own frame, and the pair in it moves outward. -/
namespace FaultRelay

variable {V : Vocabulary} {σ : Type}

structure World.Unaltered (world later : World V (Ledger V σ)) : Prop where
  thread : later.thread = world.thread
  process : later.process = world.process
  made : later.host.made = world.host.made
  ended : later.host.ended = world.host.ended

namespace World.Unaltered

variable {world later last : World V (Ledger V σ)}

theorem refl (world : World V (Ledger V σ)) : world.Unaltered world := ⟨rfl, rfl, rfl, rfl⟩

theorem trans (first : world.Unaltered later) (second : later.Unaltered last) :
    world.Unaltered last :=
  ⟨second.thread.trans first.thread, second.process.trans first.process,
    second.made.trans first.made, second.ended.trans first.ended⟩

end World.Unaltered

/-- A predicate that answers has altered nothing. -/
def Condition.ReadOnly : Condition V (Ledger V σ) → Prop
  | holds _ test => ∀ value world answer,
      (test value world).1 = .ok answer → world.Unaltered (test value world).2
  | thrown _ => True

variable [Client V σ] {ρ : Type}

structure Handler.ReadOnly (handler : Handler V (Ledger V σ) ρ) : Prop where
  available : ∀ argument, Argument.custom argument ∈ handler.arguments →
    ∀ (case : Case V) (world : World V (Ledger V σ)),
      world.Unaltered (Client.available argument case world).2
  conditions : ∀ condition ∈ handler.conditions, condition.ReadOnly

section Asking

variable {world : World V (Ledger V σ)}

theorem lend_unaltered {β : Type} {key : Key V} {id : Nat}
    {use : key.Value → Act V (Ledger V σ) β}
    (reads : ∀ value world answer,
      (use value world).1 = .ok answer → world.Unaltered (use value world).2)
    {answer : Option β} (returned : (Slot.lend key id use world).1 = .ok answer) :
    world.Unaltered (Slot.lend key id use world).2 := by
  rcases held : (world.thread.stack key).valueFor id with _ | value
  · rw [lendNothing_apply held]
    exact .refl world
  · obtain ⟨top, innermost⟩ := top_of_valueFor held
    rw [lend_apply innermost held, map_apply, ensuring_quietly_apply] at returned ⊢
    rcases asked : use value (Slot.takeFor key id world).2 with ⟨(object | _) | found, ended⟩
    · rw [asked] at returned
      cases returned
    · rw [asked] at returned
      cases returned
    · have same := reads _ _ found (congrArg Prod.fst asked)
      rw [asked] at same
      -- The test ended where the loan began, but for the application's own state.
      have borrowed : ended =
          (Slot.takeFor key id ⟨world.process, world.thread, ended.host⟩).2 := by
        obtain ⟨process, thread, host⟩ := ended
        obtain rfl : process = world.process := same.process
        obtain rfl : thread = (Slot.takeFor key id world).2.thread := same.thread
        rfl
      have back : Slot.restore key top.owner id value ended =
          ((), ⟨world.process, world.thread, ended.host⟩) := by
        rw [borrowed]
        exact restore_taken innermost held
      change world.Unaltered (Slot.restore key top.owner id value ended).2
      rw [back]
      exact ⟨rfl, rfl, same.made, same.ended⟩

theorem Condition.test_unaltered {condition : Condition V (Ledger V σ)}
    (reads : condition.ReadOnly) {id : FailureId} {answer : Bool}
    (returned : (condition.test id world).1 = .ok answer) :
    world.Unaltered (condition.test id world).2 := by
  cases condition with
  | thrown type => exact .refl world
  | holds key test =>
      have shape : (holds key test).test id world =
          (Slot.lend key id.raw test >>= fun found => pure (found.getD false)) world := rfl
      rw [shape] at returned ⊢
      rcases lent : (Slot.lend key id.raw test world).1 with exit | found
      · rw [bind_error lent] at returned
        cases returned
      · rw [bind_ok lent]
        exact lend_unaltered reads lent

theorem Condition.testAll_unaltered {conditions : List (Condition V (Ledger V σ))}
    (reads : ∀ condition ∈ conditions, condition.ReadOnly) {id : FailureId} {answer : Bool}
    (returned : (testAll id conditions world).1 = .ok answer) :
    world.Unaltered (testAll id conditions world).2 := by
  induction conditions generalizing world with
  | nil => exact .refl world
  | cons condition rest ih =>
      obtain ⟨first, later⟩ := List.forall_mem_cons.1 reads
      unfold testAll at returned ⊢
      rcases asked : (condition.test id world).1 with exit | found
      · rw [bind_error asked] at returned
        cases returned
      · have same := test_unaltered first asked
        rw [bind_ok asked] at returned ⊢
        cases found with
        | true => exact same.trans (ih later returned)
        | false => exact same

theorem Arguments.available_unaltered {arguments : List (Argument V)}
    (reads : ∀ argument, Argument.custom argument ∈ arguments →
      ∀ (case : Case V) (world : World V (Ledger V σ)),
        world.Unaltered (Client.available argument case world).2) (case : Case V)
    (world : World V (Ledger V σ)) : world.Unaltered (Arguments.available case arguments world).2 := by
  induction arguments generalizing world with
  | nil => exact .refl world
  | cons argument rest ih =>
      have first : world.Unaltered (argument.available case world).2 := by
        cases argument with
        | custom argument => exact reads argument List.mem_cons_self case world
        | take | copy | optional | thrown | message | summary | report => exact .refl world
      have later := ih (fun argument listed => reads argument (List.mem_cons_of_mem _ listed))
        (argument.available case world).2
      have shape : Arguments.available case (argument :: rest) world =
          (if (argument.available case world).1 then
            Arguments.available case rest (argument.available case world).2
          else (false, (argument.available case world).2)) := by
        change (if (argument.available case world).1 then _ else _ : Quiet V (Ledger V σ) Bool)
          (argument.available case world).2 = _
        split <;> rfl
      rw [shape]
      split
      · exact first.trans later
      · exact first

theorem Handler.accepts_unaltered {handler : Handler V (Ledger V σ) ρ} (reads : handler.ReadOnly)
    {case : Case V} {answer : Bool} (returned : (handler.accepts case world).1 = .ok answer) :
    world.Unaltered (handler.accepts case world).2 := by
  have found := Arguments.available_unaltered reads.available case world
  have shape : handler.accepts case world =
      (if (Arguments.available case handler.arguments world).1 then
        Condition.testAll case.id handler.conditions
      else pure false) (Arguments.available case handler.arguments world).2 := by
    unfold Handler.accepts
    rw [bind_ok rfl]
    rfl
  rw [shape] at returned ⊢
  split
  · rename_i ready
    rw [if_pos ready] at returned
    exact found.trans (Condition.testAll_unaltered reads.conditions returned)
  · exact found

def Handler.allDecline (case : Case V) :
    List (Handler V (Ledger V σ) ρ) → World V (Ledger V σ) → Prop
  | [], _ => True
  | handler :: rest, world =>
      (handler.accepts case world).1 = .ok false ∧
        allDecline case rest (handler.accepts case world).2

/-- A selection that fails is neutral, however often values were lent on the way. -/
theorem dispatchFrom_unaltered {handlers : List (Handler V (Ledger V σ) ρ)}
    (reads : ∀ handler ∈ handlers, handler.ReadOnly) {case : Case V} (index : Nat)
    (decline : Handler.allDecline case handlers world) :
    (dispatchFrom case index handlers world).1 = .ok (.unmatched case.id) ∧
      world.Unaltered (dispatchFrom case index handlers world).2 := by
  induction handlers generalizing index world with
  | nil => exact ⟨rfl, rfl, rfl, rfl, rfl⟩
  | cons handler rest ih =>
      obtain ⟨first, later⟩ := List.forall_mem_cons.1 reads
      have asked := Handler.accepts_unaltered first decline.1
      obtain ⟨answer, neutral⟩ := ih later (index + 1) decline.2
      unfold dispatchFrom
      rw [bind_ok decline.1]
      exact ⟨answer, asked.trans neutral⟩

end Asking

section Leaving

variable {world : World V (Ledger V σ)} (inert : ∀ (kind : V.Kind) (value : V.Value kind)
  (world : World V (Ledger V σ)), (Client.parting kind value world).2 = world)
include inert

theorem release_notes (key : Key V) (value : key.Value) (world : World V (Ledger V σ)) :
    (release key value world).2 = world.noteEnded ⟨key, value⟩ := by
  cases key with
  | app kind => exact inert kind value (world.noteEnded ⟨.app kind, value⟩)
  | tally | thrown => exact (World.noteEnded_internal rfl world).symm

theorem closeSlot_ended (owner : Token) (key : Key V) (world : World V (Ledger V σ)) :
    (Scope.closeSlot owner key world).2.thread =
        world.thread.setStack key ((world.thread.stack key).close owner).2 ∧
      (Scope.closeSlot owner key world).2.process = world.process ∧
      ∀ other : Key V, other.isInternal = false →
        valuesOf other (Scope.closeSlot owner key world).2.host.ended =
          valuesOf other (key.payloads ((world.thread.stack key).close owner).1.freed) +
            valuesOf other world.host.ended := by
  -- The value that is set free ends once the observer was told.
  have parted (event : Event) (value : key.Value) {last : World V (Ledger V σ)}
      (ends : last = (emit event (Slot.close key owner world).2).2.noteEnded ⟨key, value⟩) :
      last.thread = world.thread.setStack key ((world.thread.stack key).close owner).2 ∧
        last.process = world.process ∧ ∀ other : Key V, other.isInternal = false →
          valuesOf other last.host.ended =
            valuesOf other (key.payloads [value]) + valuesOf other world.host.ended := by
    subst ends
    refine ⟨rfl, rfl, fun other plain => ?_⟩
    rw [valuesOf_noteEnded plain, add_comm]
    rfl
  unfold Scope.closeSlot Slot.close
  simp only [bind, StateT.bind, Slot.onStack_apply]
  rcases ((world.thread.stack key).close owner).1 with _ | _ | ⟨id, _ | value⟩ | ⟨id, value⟩ | _
  · exact ⟨rfl, rfl, fun _ _ => (zero_add _).symm⟩
  · exact ⟨rfl, rfl, fun _ _ => (zero_add _).symm⟩
  · exact ⟨rfl, rfl, fun _ _ => (zero_add _).symm⟩
  · exact parted _ value (release_notes inert key value _)
  · exact parted _ value (release_notes inert key value _)
  · exact ⟨rfl, rfl, fun _ _ => (zero_add _).symm⟩

theorem closeSlots_ended (owner : Token) {keys : List (Key V)} (once : keys.Nodup)
    (world : World V (Ledger V σ)) :
    (keys.forM (Scope.closeSlot owner) world).2.thread = world.thread.closeAll owner keys ∧
      (keys.forM (Scope.closeSlot owner) world).2.process = world.process ∧
      ∀ other : Key V, other.isInternal = false →
        valuesOf other (keys.forM (Scope.closeSlot owner) world).2.host.ended =
          (if other ∈ keys then ↑((world.thread.stack other).close owner).1.freed else 0) +
            valuesOf other world.host.ended := by
  induction keys generalizing world with
  | nil => exact ⟨rfl, rfl, fun _ _ => (zero_add _).symm⟩
  | cons key rest ih =>
      obtain ⟨apart, once⟩ := List.nodup_cons.1 once
      obtain ⟨thread, process, ended⟩ := closeSlot_ended inert owner key world
      obtain ⟨threads, processes, later⟩ := ih once (Scope.closeSlot owner key world).2
      refine ⟨threads.trans ?_, processes.trans process, fun other plain => ?_⟩
      · rw [thread, Thread.closeAll_cons]
      · refine (later other plain).trans ?_
        rw [ended other plain, thread, ← add_assoc]
        congr 1
        by_cases here : other = key
        · subst here
          rw [if_neg apart, if_pos List.mem_cons_self, valuesOf_payloads, zero_add]
        · rw [Thread.stack_setStack_other _ _ here, valuesOf_other (Ne.symm here), add_zero]
          simp only [List.mem_cons, here, false_or]

/-- What is left when a scope was left: its frames are closed, and what they set free has ended. -/
theorem leave_ended (scope : OpenScope V) (world : World V (Ledger V σ)) :
    (scope.leave world).2.thread =
        { (world.thread.closeAll scope.token scope.interest.keys.reverse) with
          tallying := (world.thread.closeAll scope.token scope.interest.keys.reverse).tallying -
            if scope.tallies then 1 else 0 } ∧
      (scope.leave world).2.process = world.process ∧
      ∀ other : Key V, other.isInternal = false →
        valuesOf other (scope.leave world).2.host.ended =
          (if other ∈ scope.interest.keys then
              ↑((world.thread.stack other).close scope.token).1.freed else 0) +
            valuesOf other world.host.ended := by
  have once : scope.interest.keys.reverse.Nodup := List.nodup_reverse.2 scope.interest.nodup_keys
  obtain ⟨thread, process, ended⟩ := closeSlots_ended inert scope.token once world
  simp only [List.mem_reverse] at ended
  rw [← thread]
  obtain ⟨interest, token, tallies⟩ := scope
  cases tallies <;> exact ⟨rfl, process, ended⟩

end Leaving

/-- `before` becomes `after` when `owner` gives up the innermost frame, and `ended` are the values
that this costs: the pair of the frame goes outward over the pair beneath, or is lost. -/
inductive Stack.GivesUp {α : Type} (owner : Token) :
    (before after : List (Frame α)) → (ended : List α) → Prop
  | nothing {frame : Frame α} {below : List (Frame α)} (theirs : frame.owner = owner)
      (empty : frame.held = none) : GivesUp owner (frame :: below) below []
  | outward {frame outer : Frame α} {rest : List (Frame α)} {pair : Nat × α}
      (theirs : frame.owner = owner) (held : frame.held = some pair) :
      GivesUp owner (frame :: outer :: rest) ({ outer with held := some pair } :: rest)
        outer.value?.toList
  | lost {frame : Frame α} {pair : Nat × α} (theirs : frame.owner = owner)
      (held : frame.held = some pair) : GivesUp owner [frame] [] [pair.2]

theorem Stack.givesUp_close {α : Type} {owner : Token} {frame : Frame α} {below : List (Frame α)}
    (theirs : frame.owner = owner) (once : frame.refs = 1) :
    GivesUp owner (frame :: below) (close owner ⟨frame :: below⟩).2.frames
      (close owner ⟨frame :: below⟩).1.freed := by
  have apart : ∀ other ∈ ([] : List (Frame α)), other.owner ≠ owner := by simp
  have closed : close owner ⟨frame :: below⟩ =
      ((handDown frame.held below).1, ⟨(handDown frame.held below).2⟩) := by
    have last : closeFrames owner (frame :: below) =
        ((handDown frame.held below).1, (handDown frame.held below).2) :=
      closeFrames_last apart theirs (by omega)
    rw [close, last]
  rw [closed]
  rcases held : frame.held with _ | ⟨id, value⟩
  · exact .nothing theirs held
  · cases below with
    | nil => exact .lost theirs held
    | cons outer rest =>
        have freed : (handDown (some (id, value)) (outer :: rest)).1.freed =
            outer.value?.toList := by
          cases replaced : outer.value? <;> simp [handDown, Closed.freed, replaced]
        rw [freed]
        exact .outward theirs held

theorem Stack.GivesUp.owners {α : Type} {owner : Token} {before after : List (Frame α)}
    {ended : List α} (gives : GivesUp owner before after ended) :
    before.map Frame.owner = owner :: after.map Frame.owner := by
  cases gives with
  | nothing theirs => rw [List.map_cons, theirs]
  | outward theirs => rw [List.map_cons, theirs, List.map_cons, List.map_cons]
  | lost theirs => rw [List.map_cons, theirs]

/-- What is open afterwards was open before, in the same order, and the scope of `own`, which has
`keys` open, still is: whoever ran in between has closed what it opened. -/
structure Thread.OnlyCloses (own : Token) (keys : List (Key V)) (before after : Thread V) :
    Prop where
  owners : ∀ key, (after.owners key).Sublist (before.owners key)
  own : after.store ≠ none → ∀ key ∈ keys, (own, 1) ∈ (after.stack key).outline

/-- The block of `own` is gone and leaves to the outside what its frames of `keys` held in `before`. -/
structure PassesOn (own : Token) (keys : List (Key V)) (before after : World V (Ledger V σ)) :
    Prop where
  gone : ∀ key ∈ keys, own ∉ after.thread.owners key
  outward : before.thread.store ≠ none → ∀ key ∈ keys, ∃ ended,
    Stack.GivesUp own (before.thread.stack key).frames (after.thread.stack key).frames ended ∧
      (key.isInternal = false →
        valuesOf key after.host.ended = ↑ended + valuesOf key before.host.ended)
  others : ∀ key ∉ keys, after.thread.stack key = before.thread.stack key ∧
    (key.isInternal = false → valuesOf key after.host.ended = valuesOf key before.host.ended)
  current : after.thread.current = before.thread.current
  reserved : after.thread.reserved = before.thread.reserved
  drawn : after.process.drawn = before.process.drawn

theorem Thread.closeAll_identities (owner : Token) (keys : List (Key V)) (thread : Thread V) :
    (thread.closeAll owner keys).current = thread.current ∧
      (thread.closeAll owner keys).reserved = thread.reserved := by
  induction keys generalizing thread with
  | nil => exact ⟨rfl, rfl⟩
  | cons key rest ih => exact ih _

section Blocks

variable {scope : Scope V} {world later : World V (Ledger V σ)} {own : Token}

/-- After a body that closed what it opened, the block has the innermost frame of each of its types,
and no other. -/
theorem Thread.OnlyCloses.innermost (drawn : own = .numbered (world.thread.lastToken + 1))
    (fresh : world.thread.Fresh)
    (closes : OnlyCloses own scope.interest.keys (scope.enter world).2.thread later.thread)
    (alive : later.thread.store ≠ none) {key : Key V} (listed : key ∈ scope.interest.keys) :
    ∃ frame below, (later.thread.stack key).frames = frame :: below ∧ frame.owner = own ∧
      frame.refs = 1 ∧ own ∉ below.map Frame.owner := by
  have outside : own ∉ world.thread.owners key := by
    intro inside
    obtain ⟨frame, found, same⟩ := List.mem_map.1 inside
    have within := fresh.within frame found _ (same.trans drawn)
    omega
  have still := closes.own alive key listed
  have present : own ∈ later.thread.owners key := by
    rw [Thread.owners_eq_outline]
    exact List.mem_map_of_mem still
  have kept := closes.owners key
  have stored : world.thread.store ≠ none := fun gone => by
    rw [Thread.owners, Thread.owners, stack_gone ((enter_gone scope world).2 gone)] at kept
    exact List.not_mem_nil (kept.subset present)
  have entered : (scope.enter world).2.thread.owners key = own :: world.thread.owners key := by
    rw [Thread.owners, frames_enter scope fresh stored, if_pos listed, ← drawn]
    rfl
  rw [entered] at kept
  rcases List.sublist_cons_iff.1 kept with deeper | ⟨rest, shape, deeper⟩
  · exact absurd (deeper.subset present) outside
  · obtain ⟨frame, below, frames, theirs, rfl⟩ := List.map_eq_cons_iff.1 shape
    have others : own ∉ below.map Frame.owner := fun inside => outside (deeper.subset inside)
    refine ⟨frame, below, frames, theirs, ?_, others⟩
    rw [Stack.outline, frames] at still
    rcases List.mem_cons.1 still with first | beneath
    · exact (congrArg Prod.snd first).symm
    · obtain ⟨other, inside, same⟩ := List.mem_map.1 beneath
      exact absurd (List.mem_map.2 ⟨other, inside, congrArg Prod.fst same⟩) others

theorem Thread.OnlyCloses.of_sameShape (fresh : world.thread.Fresh)
    (alive : world.thread.store ≠ none)
    (same : (scope.enter world).2.thread.SameShape later.thread) :
    OnlyCloses (.numbered (world.thread.lastToken + 1)) scope.interest.keys
      (scope.enter world).2.thread later.thread where
  owners key := by
    rw [owners_eq_outline, owners_eq_outline, same.outline]
  own _ key listed := by
    rw [same.outline, Stack.outline, frames_enter scope fresh alive, if_pos listed]
    exact List.mem_cons_self

theorem newFailure_sameShape (inert : ∀ (kind : V.Kind) (value : V.Value kind)
      (world : World V (Ledger V σ)), (Client.parting kind value world).2 = world)
    (key : Key V) (value : key.Value) {top : Frame key.Value} {below : List (Frame key.Value)}
    (heard : world.thread.stack key = ⟨top :: below⟩) :
    world.thread.SameShape (newFailure [⟨key, value⟩] world).2.thread := by
  let minted := (FailureId.mint world).2
  let id := (FailureId.mint world).1
  have still : minted.thread.stack key = ⟨top :: below⟩ := by
    change (FailureId.upcoming world).2.thread.stack key = _
    rw [FailureId.upcoming_thread, heard]
  have recorded : (newFailure [⟨key, value⟩] world).2.thread =
      minted.thread.setStack key (Stack.put id.raw value (minted.thread.stack key)).2 := by
    change (record key value id minted).2.thread = _
    have stored : Slot.put key id.raw value minted = _ := Slot.onStack_apply _ _ _
    rw [record_apply, stored, still]
    cases replaced : top.value? with
    | none => simp [Stack.put, replaced]
    | some previous =>
        simp only [Stack.put, replaced, release_notes inert]
        rfl
  refine .trans (Quiet.Level.mint world) ?_
  rw [recorded]
  exact .setStack minted.thread (Stack.outline_put id.raw value _)

theorem leave_passesOn (inert : ∀ (kind : V.Kind) (value : V.Value kind)
      (world : World V (Ledger V σ)), (Client.parting kind value world).2 = world)
    (active : OpenScope V) (before : World V (Ledger V σ))
    (innermost : before.thread.store ≠ none → ∀ key ∈ active.interest.keys, ∃ frame below,
      (before.thread.stack key).frames = frame :: below ∧ frame.owner = active.token ∧
        frame.refs = 1 ∧ active.token ∉ below.map Frame.owner) :
    PassesOn active.token active.interest.keys before (active.leave before).2 := by
  obtain ⟨thread, process, ended⟩ := leave_ended inert active before
  have once : active.interest.keys.reverse.Nodup := List.nodup_reverse.2 active.interest.nodup_keys
  have stack (key : Key V) : (active.leave before).2.thread.stack key =
      if key ∈ active.interest.keys then ((before.thread.stack key).close active.token).2
      else before.thread.stack key := by
    rw [thread]
    change (before.thread.closeAll active.token active.interest.keys.reverse).stack key = _
    simp only [Thread.stack_closeAll _ once, List.mem_reverse]
  have gives (alive : before.thread.store ≠ none) {key : Key V}
      (listed : key ∈ active.interest.keys) :
      Stack.GivesUp active.token (before.thread.stack key).frames
        ((active.leave before).2.thread.stack key).frames
        ((before.thread.stack key).close active.token).1.freed := by
    obtain ⟨frame, below, frames, theirs, once, -⟩ := innermost alive key listed
    have shape : before.thread.stack key = ⟨frame :: below⟩ := congrArg Stack.mk frames
    rw [stack, if_pos listed, shape]
    exact Stack.givesUp_close theirs once
  refine {
    gone := ?gone
    outward := fun alive key listed => ⟨_, gives alive listed, fun plain => ?_⟩
    others := fun key absent => ⟨?_, fun plain => ?_⟩
    current := ?current
    reserved := ?reserved
    drawn := congrArg Process.drawn process }
  case gone =>
    intro key listed
    by_cases gone : before.thread.store = none
    · rw [Thread.owners, stack, if_pos listed, Thread.stack_gone gone]
      exact List.not_mem_nil
    · obtain ⟨frame, below, frames, -, -, others⟩ := innermost gone key listed
      have owners := (gives gone listed).owners
      rw [frames, List.map_cons, List.cons_eq_cons] at owners
      rw [Thread.owners, ← owners.2]
      exact others
  case current =>
    rw [thread]
    exact (Thread.closeAll_identities _ _ _).1
  case reserved =>
    rw [thread]
    exact (Thread.closeAll_identities _ _ _).2
  · rw [ended key plain, if_pos listed]
  · rw [stack, if_neg absent]
  · rw [ended key plain, if_neg absent, zero_add]

omit [Client V σ] in
/-- A selection that failed in between makes no difference. -/
theorem PassesOn.of_unaltered {keys : List (Key V)} {before between after : World V (Ledger V σ)}
    (same : before.Unaltered between) (passes : PassesOn own keys between after) :
    PassesOn own keys before after := by
  obtain ⟨gone, outward, others, current, reserved, drawn⟩ := passes
  rw [same.thread, same.ended] at *
  rw [same.process] at drawn
  exact ⟨gone, outward, others, current, reserved, drawn⟩

end Blocks

/-- A failure that no handler of the block accepts is returned as it is. What the block's frames hold
moves outward or ends, and nothing else that the thread knows is touched; the thread is left as by a
plain scope of the same types around the same body. -/
theorem unmatched_failures_pass_through {α : Type} {body : Act V (Ledger V σ) (Except FailureId α)}
    {chain : Chain V (Ledger V σ) (Except FailureId α)} {world later : World V (Ledger V σ)}
    {id : FailureId}
    (inert : ∀ (kind : V.Kind) (value : V.Value kind) (world : World V (Ledger V σ)),
      (Client.parting kind value world).2 = world)
    (reads : ∀ handler ∈ chain.handlers, handler.ReadOnly) (fresh : world.thread.Fresh)
    (failed : body ((Scope.forHandlers chain.handlers).enter world).2 = (.ok (.error id), later))
    (closes : Thread.OnlyCloses (.numbered (world.thread.lastToken + 1))
      (Scope.forHandlers chain.handlers).interest.keys
      ((Scope.forHandlers chain.handlers).enter world).2.thread later.thread)
    (declined : Handler.allDecline ⟨id, chain.interest⟩ chain.handlers later) :
    (handleSome body chain world).1 = .ok (.error id) ∧
      PassesOn (.numbered (world.thread.lastToken + 1))
        (Scope.forHandlers chain.handlers).interest.keys later (handleSome body chain world).2 ∧
      ((Scope.forHandlers chain.handlers).during (fun _ => body) world).1 = .ok (.error id) ∧
      ((Scope.forHandlers chain.handlers).during (fun _ => body) world).2.thread =
        (handleSome body chain world).2.thread := by
  obtain ⟨unmatched, same⟩ : (chain.dispatch id later).1 = .ok (.unmatched id) ∧
      later.Unaltered (chain.dispatch id later).2 := dispatchFrom_unaltered reads 0 declined
  have ended := handleSome_unmatched rfl failed unmatched
  have plain : (Scope.forHandlers chain.handlers).during (fun _ => body) world =
      (.ok (.error id), (((Scope.forHandlers chain.handlers).enter world).1.leave later).2) := by
    rw [during_apply, failed]
  have active : ((Scope.forHandlers chain.handlers).enter world).1 =
      ⟨(Scope.forHandlers chain.handlers).interest, .numbered (world.thread.lastToken + 1),
        (Scope.forHandlers chain.handlers).interest.tallies⟩ := by rw [enter_apply]
  have passes := leave_passesOn inert ((Scope.forHandlers chain.handlers).enter world).1
    (chain.dispatch id later).2
  rw [active] at passes
  rw [ended, plain, active]
  refine ⟨rfl, .of_unaltered same (passes fun alive key listed => ?_), rfl, ?_⟩
  · rw [same.thread] at alive ⊢
    exact closes.innermost rfl fresh alive listed
  · rw [(leave_ended inert _ _).1, (leave_ended inert _ _).1, same.thread]

namespace Scenario

inductive Calm where
  | calm

instance : Observer Calm := ⟨fun _ state => state⟩

instance : Client application Calm where
  parting _ _ := pure ()
  declared _ _ := pure ()
  available _ _ := return true
  produced _ := return none

def failWith (code : Int) : Act application (Ledger application Calm) (Except FailureId Unit) := do
  return .error (← quietly (newFailure [payload .code code]))

/-- A scope is open for codes and echoes, and has the code of an older failure. -/
def evening : World application (Ledger application Calm) :=
  (newFailure [payload .code 3] (outerScope.enter
    (⟨⟨0, none, none⟩, .fresh application, ⟨.calm, [], []⟩⟩ :
      World application (Ledger application Calm))).2).2

def lowCode : Handler application (Ledger application Calm) (Except FailureId Unit) :=
  ⟨[.take (Topic.ofKind .code)],
    [.holds (Topic.ofKind .code) fun (value : Int) => return decide (value < 5)],
    fun _ => return .ok ()⟩

theorem lowCode_readOnly : lowCode.ReadOnly where
  available argument listed := by simp [lowCode] at listed
  conditions condition listed := by
    obtain rfl := List.mem_singleton.1 listed
    exact fun value world answer _ => .refl world

/-- The code that nobody takes moves outward, over the older one, which ends. -/
theorem high_code_moves_outward :
    let final := (handleSome (failWith 7) (.ofList [lowCode]) evening).2
    (final.thread.stack (Topic.ofKind .code)).frames = [⟨.numbered 1, 1, some (9, (7 : Int))⟩] ∧
      valuesOf (Topic.ofKind .code) final.host.ended = {(3 : Int)} := by
  intro final
  let code := Topic.ofKind .code
  let entered := ((Scope.forHandlers [lowCode]).enter evening).2
  have inert : ∀ (kind : Kind) (value : kind.Value) (world : World application
    (Ledger application Calm)), (Client.parting kind value world).2 = world := fun _ _ _ => rfl
  have fresh : evening.thread.Fresh :=
    (newFailure_sameShape inert code (3 : Int) rfl).fresh (fresh_enter outerScope Thread.fresh_fresh)
  have failed : failWith 7 entered =
    (.ok (.error (.numbered 2)), (newFailure [payload .code 7] entered).2) := rfl
  have closes : Thread.OnlyCloses (.numbered (evening.thread.lastToken + 1))
      (Scope.forHandlers [lowCode]).interest.keys entered.thread
      (newFailure [payload .code 7] entered).2.thread :=
    .of_sameShape fresh nofun (newFailure_sameShape inert code (7 : Int) rfl)
  have reads : ∀ handler ∈ (Chain.ofList [lowCode]).handlers, handler.ReadOnly :=
    List.forall_mem_singleton.2 lowCode_readOnly
  obtain ⟨-, passes, -⟩ :=
    unmatched_failures_pass_through inert reads fresh failed closes ⟨rfl, trivial⟩
  obtain ⟨ended, gives, spent⟩ := passes.outward nofun code (by decide)
  change Stack.GivesUp (.numbered 2)
    [⟨.numbered 2, 1, some (9, (7 : Int))⟩, ⟨.numbered 1, 1, some (5, (3 : Int))⟩]
    (final.thread.stack code).frames ended at gives
  cases gives with
  | outward theirs held =>
      cases held
      exact ⟨rfl, (spent rfl).trans (add_zero _)⟩

end Scenario

end FaultRelay

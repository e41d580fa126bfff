import FaultRelay.Handler.Block
import FaultRelay.Proofs.ArgumentConduct

/-! Handling blocks are linear programs. A trade takes the values it is given and leaves those that
its answer owns, whatever else is in hand; when it unwinds it leaves nothing. Trades compose, and a
block is a trade if its body, the tests of its handlers and the handlers themselves are trades. -/
namespace FaultRelay

variable {V : Vocabulary} {σ : Type} [Client V σ]

section Cleanup

variable {α : Type} {before middle after : Hand V} {act : Act V (Ledger V σ) α}
  {clean : Quiet V (Ledger V σ) Unit} {world : World V (Ledger V σ)} {deeds more : List (Deed V)}

theorem Linear.ensuring (body : Linear before act world deeds middle)
    (running : (act world).1 ≠ .error .aborted)
    (cleaning : Conducts middle clean (act world).2 after) :
    ∃ deeds, Linear before (act.ensuring (quietly clean)) world deeds after := by
  obtain ⟨more, cleaning⟩ := cleaning
  rcases result : (act world).1 with (object | _) | value
  · have left : (act.onUnwinding (quietly clean) world).1 = .error (.unwinding object) := by
      rw [onUnwinding_cleanup result]
      rfl
    exact ⟨_, .skip (.cleanup body result cleaning) left⟩
  · exact absurd result running
  · have intact : ∀ object, (act world).1 ≠ .error (.unwinding object) := by simp [result]
    have same : act.onUnwinding (quietly clean) world = act world := onUnwinding_passed intact
    have returned : (act.onUnwinding (quietly clean) world).1 = .ok value := by rw [same, result]
    rw [← same] at cleaning
    exact ⟨_, .bind (.passed body intact) returned (.bind cleaning rfl (.idle (.refl _)))⟩

/-- Nothing is cleaned up after a body that was aborted. -/
theorem Linear.aborted {clean : Act V (Ledger V σ) Unit} (body : Linear before act world deeds middle)
    (aborted : (act world).1 = .error .aborted) :
    Linear before (act.ensuring clean) world deeds middle := by
  have intact : ∀ object, (act world).1 ≠ .error (.unwinding object) := by simp [aborted]
  have left : (act.onUnwinding clean world).1 = .error .aborted := by
    rw [onUnwinding_passed intact, aborted]
  exact .skip (.passed body intact) left

end Cleanup

section Lending

variable {α : Type} {before after : Hand V} {world : World V (Ledger V σ)} {key : Key V} {id : Nat}
  {use : key.Value → Act V (Ledger V σ) α} {deeds : List (Deed V)} [Orderly V σ]

theorem Linear.lend {top : Frame key.Value} {value : key.Value}
    (innermost : (world.thread.stack key).top? = some top)
    (held : (world.thread.stack key).valueFor id = some value)
    (body : Linear before (use value) (Slot.takeFor key id world).2 deeds after) :
    ∃ deeds, Linear before (Slot.lend key id use) world deeds after := by
  let lend : Lend V := ⟨key, top.owner, id, value⟩
  have takes : lend.Takes world := ⟨⟨top, innermost, rfl⟩, held⟩
  by_cases aborted : (use value (Slot.takeFor key id world).2).1 = .error .aborted
  · exact ⟨_, .lendAborted takes body aborted⟩
  · cases welcome : lend.isWelcome (use value (Slot.takeFor key id world).2).2 with
    | true => exact ⟨_, .lendBack takes body aborted welcome⟩
    | false =>
        have ends : Conducts _ _ (use value (Slot.takeFor key id world).2).2 after :=
          release_conducts key value
        obtain ⟨more, ends⟩ := ends
        exact ⟨_, .lendOver takes body aborted welcome ends⟩

end Lending

/-- In any world and whatever else is in hand, `act` takes `given`. What it returns owns what it
leaves, and when it unwinds it leaves nothing. -/
def Trades {α : Type} (given : Hand V) (act : Act V (Ledger V σ) α) (owned : α → Hand V) : Prop :=
  ∀ hand world, ∃ left deeds, Linear (given + hand) act world deeds (left + hand) ∧
    (∀ value, (act world).1 = .ok value → left = owned value) ∧
    (∀ object, (act world).1 = .error (.unwinding object) → left = 0)

def Except.owned {ε α : Type} (owned : α → Hand V) : Except ε α → Hand V
  | .ok value => owned value
  | .error _ => 0

def Outcome.owned {ρ : Type} (owned : ρ → Hand V) : Outcome ρ → Hand V
  | handled value => owned value
  | unmatched _ => 0

namespace Trades

variable {α β : Type} {given : Hand V} {owned : α → Hand V} {more : β → Hand V}
  {act : Act V (Ledger V σ) α}

theorem returned (trades : Trades given act owned) (hand : Hand V) {world : World V (Ledger V σ)}
    {value : α} (returned : (act world).1 = .ok value) :
    ∃ deeds, Linear (given + hand) act world deeds (owned value + hand) := by
  obtain ⟨left, deeds, linear, returns, -⟩ := trades hand world
  rw [returns value returned] at linear
  exact ⟨deeds, linear⟩

theorem quiet {act : Quiet V (Ledger V σ) α}
    (conducts : ∀ hand world, Conducts (given + hand) act world (owned (act world).1 + hand)) :
    Trades given (quietly act) owned := by
  intro hand world
  obtain ⟨deeds, linear⟩ := conducts hand world
  refine ⟨owned (act world).1, deeds, linear, ?_, ?_⟩
  · intro value returned
    cases returned
    rfl
  · intro object unwound
    cases unwound

theorem spent {act : Quiet V (Ledger V σ) α}
    (conducts : ∀ hand world, Conducts (given + hand) act world hand) :
    Trades given (quietly act) fun _ => 0 :=
  quiet fun hand world => (zero_add hand).symm ▸ conducts hand world

theorem gained {act : Quiet V (Ledger V σ) α}
    (conducts : ∀ hand world, Conducts hand act world (owned (act world).1 + hand)) :
    Trades 0 (quietly act) owned :=
  quiet fun hand world => (zero_add hand).symm ▸ conducts hand world

theorem unmoved {act : Quiet V (Ledger V σ) α} (unmoved : ∀ world, Unmoved world (act world).2) :
    Trades given (quietly act) fun _ => given := quiet fun _ world => .unmoved (unmoved world)

theorem pure (value : α) (same : given = owned value) :
    Trades given (Pure.pure value : Act V (Ledger V σ) α) owned := by
  intro hand world
  refine ⟨given, [.other], .idle (.refl world), ?_, ?_⟩
  · intro other returned
    cases returned
    exact same
  · intro object unwound
    cases unwound

theorem unwind (object : Thrown V) : Trades 0 (Act.unwind object : Act V (Ledger V σ) α) owned := by
  intro hand world
  refine ⟨0, [.other], .idle ⟨rfl, rfl, rfl, rfl, rfl⟩, ?_, fun _ _ => rfl⟩
  intro value returned
  cases returned

theorem bind {next : α → Act V (Ledger V σ) β} (first : Trades given act owned)
    (second : ∀ value, Trades (owned value) (next value) more) :
    Trades given (act >>= next) more := by
  intro hand world
  obtain ⟨left, deeds, linear, returns, unwinds⟩ := first hand world
  rcases result : (act world).1 with exit | value
  · refine ⟨left, deeds, .skip linear result, ?_, ?_⟩
    · intro value returned
      rw [bind_error result] at returned
      cases returned
    · intro object unwound
      rw [bind_error result] at unwound
      cases unwound
      exact unwinds object result
  · obtain ⟨later, more, rest, returnsLater, unwindsLater⟩ := second value hand (act world).2
    rw [← returns value result] at rest
    refine ⟨later, deeds ++ more, .bind linear result rest, ?_, ?_⟩
    · rw [bind_ok result]
      exact returnsLater
    · rw [bind_ok result]
      exact unwindsLater

theorem attempt (body : Trades given act owned) :
    Trades given act.attempt (Except.owned owned) := by
  intro hand world
  obtain ⟨left, deeds, linear, returns, unwinds⟩ := body hand world
  refine ⟨left, deeds ++ [.other], .attempt linear, ?_, ?_⟩
  · intro ended returned
    unfold Act.attempt at returned
    rcases result : act world with ⟨(object | _) | value, later⟩ <;> rw [result] at returned <;>
      cases returned
    · exact unwinds object (by rw [result])
    · exact returns value (by rw [result])
  · intro object unwound
    unfold Act.attempt at unwound
    rcases result : act world with ⟨(object | _) | value, later⟩ <;> rw [result] at unwound <;>
      cases unwound

variable [Orderly V σ]

theorem during {scope : Scope V} {body : OpenScope V → Act V (Ledger V σ) α}
    (inside : ∀ active, Trades given (body active) owned) :
    Trades given (scope.during body) owned := by
  intro hand world
  let active := (scope.enter world).1
  have entered : Linear (given + hand) (quietly scope.enter) world [.entered active]
      (.scope active ::ₘ (given + hand)) := .enter scope
  obtain ⟨left, deeds, linear, returns, unwinds⟩ :=
    inside active (.scope active ::ₘ hand) (scope.enter world).2
  rw [Multiset.add_cons, Multiset.add_cons] at linear
  have same : (scope.during body world).1 = (body active (scope.enter world).2).1 :=
    during_result scope body world
  by_cases aborted : (body active (scope.enter world).2).1 = .error .aborted
  · refine ⟨.scope active ::ₘ left, .entered active :: deeds, ?_, ?_, ?_⟩
    · rw [Multiset.cons_add]
      exact .bind entered rfl (linear.aborted aborted)
    · rw [same, aborted]
      intro value returned
      cases returned
    · rw [same, aborted]
      intro object unwound
      cases unwound
  · obtain ⟨more, ensured⟩ := linear.ensuring aborted (leave_conducts active)
    refine ⟨left, .entered active :: more, .bind entered rfl ensured, ?_, ?_⟩
    · rw [same]
      exact returns
    · rw [same]
      exact unwinds

section Lending

variable {key : Key V}

/-- A lent value does not count as given: its use ends before it is given back. -/
theorem lend {use : key.Value → Act V (Ledger V σ) α}
    (uses : ∀ value, Trades given (use value) owned) (id : Nat) :
    Trades given (Slot.lend key id use) fun answer => (answer.map owned).getD given := by
  intro hand world
  rcases held : (world.thread.stack key).valueFor id with _ | value
  · refine ⟨given, [.other], .lendNothing held, ?_, ?_⟩
    · rw [lendNothing_apply held]
      intro answer returned
      cases returned
      rfl
    · rw [lendNothing_apply held]
      intro object unwound
      cases unwound
  · obtain ⟨left, deeds, linear, returns, unwinds⟩ := uses value hand (Slot.takeFor key id world).2
    obtain ⟨top, innermost⟩ := top_of_valueFor held
    obtain ⟨more, lent⟩ := linear.lend innermost held
    refine ⟨left, more, lent, ?_, ?_⟩
    · rw [lend_apply innermost held, map_apply, ensuring_quietly_apply]
      rcases result : (use value (Slot.takeFor key id world).2).1 with (object | _) | answer <;>
        rintro other ⟨⟩
      exact returns answer result
    · rw [lend_apply innermost held, map_apply, ensuring_quietly_apply]
      rcases result : (use value (Slot.takeFor key id world).2).1 with (object | _) | answer <;>
        rintro other ⟨⟩
      exact unwinds object result

end Lending

end Trades

section Recording

variable {α : Type} {owned : α → Hand V} [Orderly V σ]

theorem newFailure_trades (payloads : List (Payload V)) :
    Trades (.values payloads) (quietly (newFailure payloads : Quiet V (Ledger V σ) FailureId))
      fun _ => 0 := by
  have records : ∀ id, Trades (.values payloads)
      (quietly (recordAll payloads id : Quiet V (Ledger V σ) Unit)) fun _ => 0 :=
    fun id => .spent fun _ _ => recordAll_conducts payloads id
  change Trades (.values payloads) ((quietly FailureId.mint : Act V (Ledger V σ) FailureId) >>=
    fun id => quietly (recordAll payloads id) >>= fun _ => pure id) fun _ => 0
  exact .bind (.unmoved mint_unmoved) fun id => (records id).bind fun _ => .pure id rfl

theorem raise_trades (payloads : List (Payload V)) :
    Trades (.values payloads) (raise payloads : Act V (Ledger V σ) α) owned := by
  refine (newFailure_trades payloads).bind fun id => ?_
  exact .bind (.unmoved (Unmoved.emit _)) fun _ => .unwind _

variable {κ : Key V → Type} {run : (key : Key V) → κ key → Act V (Ledger V σ) key.Value}

/-- A guard with a callback has nothing of its own; what its callback makes is recorded or ends. -/
theorem Guard.drop_trades {guard : Guard V κ} {key : Key V} {code : κ key}
    (deferred : guard.context = .deferred key code)
    (runs : Trades 0 (run key code) fun value => {.value ⟨key, value⟩}) :
    Trades 0 (guard.drop run) fun _ => 0 := by
  have strays : ∀ id, Trades 0 (quietly (noteStray key id : Quiet V (Ledger V σ) Unit)) fun _ => 0 :=
    fun id => .quiet fun _ _ => noteStray_conducts key id
  have records : ∀ id value, Trades {.value ⟨key, value⟩}
      (discard (quietly (record key value id : Quiet V (Ledger V σ) Bool))) fun _ => 0 := by
    intro id value
    have recorded : Trades {.value ⟨key, value⟩}
        (quietly (record key value id : Quiet V (Ledger V σ) Bool)) fun _ => 0 :=
      .spent fun _ _ => record_conducts key value id
    exact recorded.bind fun _ => .pure _ rfl
  have fires : ∀ id, Trades 0 (Guard.fire run guard.context id) fun _ => 0 := by
    intro id
    rw [deferred]
    refine .bind (.unmoved fun world => .refl world) fun opened => ?_
    cases opened with
    | true => exact runs.bind (records id)
    | false => exact strays id
  have dismisses : Trades 0 (quietly (guard.dismiss : Quiet V (Ledger V σ) Unit)) fun _ => 0 := by
    unfold Guard.dismiss
    rw [deferred]
    exact .unmoved .refl
  refine .bind (.unmoved (target_unmoved guard)) fun target => ?_
  cases target with
  | some id => exact fires id
  | none => exact dismisses

end Recording

section Handling

variable {ρ : Type} {owned : ρ → Hand V}

def Condition.IsLinear : Condition V (Ledger V σ) → Prop
  | holds _ test => ∀ value, Trades 0 (test value) fun _ => 0
  | thrown _ => True

/-- The response owns the values that were taken for it, and its answer owns what it leaves. -/
structure Handler.IsLinear (handler : Handler V (Ledger V σ) ρ) (owned : ρ → Hand V) : Prop where
  tests : ∀ condition ∈ handler.conditions, condition.IsLinear
  responds : ∀ readings,
    Trades (.values (Arguments.payloads readings)) (handler.respond readings) owned

variable [Orderly V σ]

theorem Condition.test_trades {condition : Condition V (Ledger V σ)} (linear : condition.IsLinear)
    (id : FailureId) : Trades 0 (condition.test id) fun _ => 0 := by
  cases condition with
  | thrown type =>
      have asked : ∀ world : World V (Ledger V σ),
          Unmoved world (Argument.thrownIs type id world).2 := .refl
      exact .unmoved asked
  | holds key test =>
      refine (Trades.lend linear id.raw).bind fun answer => .pure _ ?_
      cases answer <;> rfl

theorem Condition.testAll_trades {conditions : List (Condition V (Ledger V σ))}
    (linear : ∀ condition ∈ conditions, condition.IsLinear) (id : FailureId) :
    Trades 0 (testAll id conditions) fun _ => 0 := by
  induction conditions with
  | nil => exact .pure true rfl
  | cons condition rest ih =>
      obtain ⟨first, later⟩ := List.forall_mem_cons.1 linear
      refine (test_trades first id).bind fun holds => ?_
      cases holds with
      | true => exact ih later
      | false => exact .pure false rfl

theorem Handler.make_trades (arguments : List (Argument V))
    (conditions : List (Condition V (Ledger V σ)))
    (respond : List (Reading V) → Act V (Ledger V σ) ρ) :
    Trades 0 (Handler.make arguments conditions respond) fun _ => 0 := by
  have announced : Trades 0 (quietly (Arguments.announce .empty arguments :
      Quiet V (Ledger V σ) Unit)) fun _ => 0 :=
    .quiet fun _ _ => Arguments.announce_conducts .empty arguments
  refine announced.bind fun _ => ?_
  cases Arguments.conflict? arguments with
  | some key => exact .unwind _
  | none => exact .pure _ rfl

theorem Handler.accepts_trades {handler : Handler V (Ledger V σ) ρ}
    (linear : handler.IsLinear owned) (case : Case V) :
    Trades 0 (handler.accepts case) fun _ => 0 := by
  have asked : Trades 0 (quietly (Arguments.available case handler.arguments :
      Quiet V (Ledger V σ) Bool)) fun _ => 0 := .quiet fun _ _ =>
      Arguments.available_conducts case handler.arguments
  refine asked.bind fun ready => ?_
  cases ready with
  | true => exact Condition.testAll_trades linear.tests case.id
  | false => exact .pure false rfl

theorem Handler.answer_trades {handler : Handler V (Ledger V σ) ρ}
    (linear : handler.IsLinear owned) (case : Case V) :
    Trades 0 (handler.answer? case) fun answer => (answer.map owned).getD 0 := by
  have produced : Trades 0 (quietly (Arguments.produce case handler.arguments :
      Quiet V (Ledger V σ) (Option (List (Reading V))))) fun readings =>
        .values (Arguments.payloads (readings.getD [])) :=
    .gained fun _ _ => Arguments.produce_conducts case handler.arguments
  refine produced.bind fun readings => ?_
  cases readings with
  | none => exact .pure none rfl
  | some readings => exact (linear.responds readings).bind fun value => .pure (some value) rfl

theorem dispatchFrom_trades {handlers : List (Handler V (Ledger V σ) ρ)}
    (linear : ∀ handler ∈ handlers, handler.IsLinear owned) (case : Case V) (index : Nat) :
    Trades 0 (dispatchFrom case index handlers) (Outcome.owned owned) := by
  have told : ∀ event, Trades 0 (quietly (emit event : Quiet V (Ledger V σ) Unit)) fun _ => 0 :=
    fun event => .unmoved (Unmoved.emit event)
  induction handlers generalizing index with
  | nil => exact (told _).bind fun _ => .pure _ rfl
  | cons handler rest ih =>
      obtain ⟨first, later⟩ := List.forall_mem_cons.1 linear
      refine (Handler.accepts_trades first case).bind fun accepted => ?_
      cases accepted with
      | false => exact ih later (index + 1)
      | true =>
          refine (told _).bind fun _ => (Handler.answer_trades first case).bind fun answer => ?_
          cases answer with
          | some value => exact .pure _ rfl
          | none => exact .unwind _

theorem TotalChain.dispatch_trades {total : TotalChain V (Ledger V σ) ρ}
    (linear : ∀ handler ∈ total.chain.handlers, handler.IsLinear owned) (id : FailureId) :
    Trades 0 (total.dispatch id) owned := by
  refine (dispatchFrom_trades linear _ 0).bind fun outcome => ?_
  cases outcome with
  | handled value => exact .pure value rfl
  | unmatched id => exact .unwind _

end Handling

section Blocks

variable {α : Type} {given : Hand V} {owned : α → Hand V} [Orderly V σ]

theorem handleAll_trades {body : Act V (Ledger V σ) (Except FailureId α)}
    {total : TotalChain V (Ledger V σ) α} (trades : Trades given body (Except.owned owned))
    (linear : ∀ handler ∈ total.chain.handlers, handler.IsLinear owned) :
    Trades given (handleAll body total) owned := by
  refine .during fun _ => trades.bind fun ended => ?_
  cases ended with
  | ok value => exact .pure value rfl
  | error id => exact TotalChain.dispatch_trades linear id

theorem handleSome_trades {body : Act V (Ledger V σ) (Except FailureId α)}
    {chain : Chain V (Ledger V σ) (Except FailureId α)}
    (trades : Trades given body (Except.owned owned))
    (linear : ∀ handler ∈ chain.handlers, handler.IsLinear (Except.owned owned)) :
    Trades given (handleSome body chain) (Except.owned owned) := by
  refine .during fun _ => trades.bind fun ended => ?_
  cases ended with
  | ok value => exact .pure _ rfl
  | error id =>
      refine (dispatchFrom_trades linear _ 0).bind fun outcome => ?_
      cases outcome with
      | handled result => exact .pure result rfl
      | unmatched id => exact .pure _ rfl

theorem catching_trades {β : Type} {mine : β → Hand V} {settle : β → Act V (Ledger V σ) α}
    {body : Act V (Ledger V σ) β} {total : TotalChain V (Ledger V σ) α}
    (trades : Trades given body mine) (settles : ∀ value, Trades (mine value) (settle value) owned)
    (linear : ∀ handler ∈ total.chain.handlers, handler.IsLinear owned) :
    Trades given (catching settle body total) owned := by
  refine .during fun _ => trades.attempt.bind fun ended => ?_
  cases ended with
  | ok value => exact settles value
  | error object =>
      exact .bind (.quiet fun _ _ => keep_conducts object) fun id =>
        TotalChain.dispatch_trades linear id

theorem catchUnwinding_trades {body : Act V (Ledger V σ) α} {total : TotalChain V (Ledger V σ) α}
    (trades : Trades given body owned)
    (linear : ∀ handler ∈ total.chain.handlers, handler.IsLinear owned) :
    Trades given (catchUnwinding body total) owned :=
  catching_trades trades (fun value => .pure value rfl) linear

theorem catchBoth_trades {body : Act V (Ledger V σ) (Except FailureId α)}
    {total : TotalChain V (Ledger V σ) α} (trades : Trades given body (Except.owned owned))
    (linear : ∀ handler ∈ total.chain.handlers, handler.IsLinear owned) :
    Trades given (catchBoth body total) owned := by
  rw [catchBoth_eq]
  refine catching_trades trades (fun ended => ?_) linear
  cases ended with
  | ok value => exact .pure value rfl
  | error id => exact TotalChain.dispatch_trades linear id

theorem Parcel.pack_trades {body : Act V (Ledger V σ) (Except FailureId α)}
    (trades : Trades given body (Except.owned owned)) (keys : List (Key V)) :
    Trades given (Parcel.pack keys body) fun
      | .ok value => owned value
      | .error parcel => {.parcel parcel.payloads} := by
  refine .during fun _ => trades.bind fun ended => ?_
  cases ended with
  | ok value => exact .pure _ rfl
  | error id =>
      have collected : Trades 0 (quietly (Parcel.collect id keys :
          Quiet V (Ledger V σ) (List (Payload V)))) fun payloads => {.parcel payloads} :=
        .gained fun _ _ => pack_conducts id keys
      exact collected.bind fun payloads => .pure _ rfl

end Blocks

end FaultRelay

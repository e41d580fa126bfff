import FaultRelay.Proofs.Selecting

/-! Handlers that accept every failure. Whether a handler is one is a flag that is read off its
arguments and conditions; here it is compared with what the handler answers when it is asked. Where
no slot is open the flag is the answer, so that a handler without it is refuted there. A chain that
ends with such a handler finds a handler for every failure. -/
namespace FaultRelay

variable {V : Vocabulary} {σ ρ : Type}

def Thread.Bare (thread : Thread V) : Prop := ∀ key, thread.stack key = .empty

theorem Thread.fresh_bare : (Thread.fresh V).Bare := fun _ => rfl

namespace Argument

variable {argument : Argument V} (builtIn : argument.isBuiltIn = true) (case : Case V)
include builtIn

theorem meaning?_always (always : argument.always = true) (thread : Thread V) :
    (argument.meaning? case thread).isSome = true := by
  cases argument with
  | optional | summary | report => rfl
  | custom => cases builtIn
  | take | copy | thrown | message => cases always

theorem meaning?_bare {thread : Thread V} (bare : thread.Bare) :
    (argument.meaning? case thread).isSome = argument.always := by
  cases argument with
  | take key | copy key => simp [meaning?, bare key, always, Stack.empty, Stack.valueFor, Stack.top?]
  | thrown | message =>
      simp [meaning?, bare .thrown, always, Stack.empty, Stack.valueFor, Stack.top?]
  | optional | summary | report => rfl
  | custom => cases builtIn

end Argument

namespace Condition

def Returns : Condition V σ → Prop
  | holds _ test => ∀ value world, ∃ answer, (test value world).1 = .ok answer
  | thrown _ => True

variable [Host V σ] {id : FailureId} {world : World V σ}

theorem test_bare (bare : world.thread.Bare) (condition : Condition V σ) :
    condition.test id world = (.ok false, world) := by
  cases condition with
  | thrown type =>
      change (Except.ok ((((world.thread.stack .thrown).valueFor id.raw).map _).getD false), world) = _
      rw [bare .thrown]
      rfl
  | holds key test =>
      have absent : (world.thread.stack key).valueFor id.raw = none := by
        rw [bare key]
        rfl
      have lent : Slot.lend key id.raw test world = (.ok none, world) := lendNothing_apply absent
      change (Slot.lend key id.raw test >>= fun found => pure (found.getD false)) world = _
      rw [bind_ok (by rw [lent]), lent]
      rfl

theorem test_returns {condition : Condition V σ} (returns : condition.Returns) :
    ∃ answer, (condition.test id world).1 = .ok answer := by
  cases condition with
  | thrown type => exact ⟨_, rfl⟩
  | holds key test =>
      change ∃ answer, ((Slot.lend key id.raw test >>= fun found => pure (found.getD false)) world).1 =
        .ok answer
      rcases held : (world.thread.stack key).valueFor id.raw with _ | value
      · rw [bind_ok (by rw [lendNothing_apply held])]
        exact ⟨_, rfl⟩
      · obtain ⟨top, innermost⟩ := top_of_valueFor held
        obtain ⟨answer, answered⟩ := returns value (Slot.takeFor key id.raw world).2
        have lent : (Slot.lend key id.raw test world).1 = .ok (some answer) := by
          rw [lend_apply innermost held, map_apply, ensuring_quietly_apply, answered]
          rfl
        rw [bind_ok lent]
        exact ⟨_, rfl⟩

theorem testAll_returns {conditions : List (Condition V σ)}
    (returns : ∀ condition ∈ conditions, condition.Returns) :
    ∃ answer, (testAll id conditions world).1 = .ok answer := by
  induction conditions generalizing world with
  | nil => exact ⟨true, rfl⟩
  | cons condition rest ih =>
      obtain ⟨first, later⟩ := List.forall_mem_cons.1 returns
      obtain ⟨answer, asked⟩ : ∃ answer, (condition.test id world).1 = .ok answer :=
        test_returns first
      unfold testAll
      rw [bind_ok asked]
      cases answer with
      | true => exact ih later
      | false => exact ⟨false, rfl⟩

end Condition

namespace Handler

variable [Host V σ] {handler : Handler V σ ρ}

theorem accepts_apply (builtIn : ∀ argument ∈ handler.arguments, argument.isBuiltIn = true)
    (case : Case V) (world : World V σ) :
    handler.accepts case world =
      if handler.arguments.all fun argument => (argument.meaning? case world.thread).isSome then
        Condition.testAll case.id handler.conditions world
      else (.ok false, world) := by
  have asked : (quietly (Arguments.available case handler.arguments) : Act V σ Bool) world =
      (.ok (handler.arguments.all fun argument =>
        (argument.meaning? case world.thread).isSome), world) := by
    unfold quietly
    rw [Arguments.available_apply builtIn]
  unfold accepts
  rw [bind_ok (by rw [asked]), asked]
  split <;> rfl

/-- Where no slot is open, asking a handler shows if it accepts every failure. -/
theorem accepts_bare (builtIn : ∀ argument ∈ handler.arguments, argument.isBuiltIn = true)
    (case : Case V) {world : World V σ} (bare : world.thread.Bare) :
    handler.accepts case world = (.ok handler.acceptsAll, world) := by
  have flags : (handler.arguments.all fun argument =>
      (argument.meaning? case world.thread).isSome) = Arguments.always handler.arguments := by
    rw [Arguments.always, Bool.eq_iff_iff, List.all_eq_true, List.all_eq_true]
    exact forall₂_congr fun argument listed => by
      rw [Argument.meaning?_bare (builtIn argument listed) case bare]
  rw [accepts_apply builtIn, flags, acceptsAll]
  cases Arguments.always handler.arguments with
  | false => rw [Bool.and_false, if_neg Bool.false_ne_true]
  | true =>
      rw [Bool.and_true, if_pos rfl]
      cases handler.conditions with
      | nil => rfl
      | cons condition rest =>
          have tested : condition.test case.id world = (.ok false, world) :=
            Condition.test_bare bare condition
          unfold Condition.testAll
          rw [bind_ok (by rw [tested]), tested]
          rfl

theorem accepts_always (builtIn : ∀ argument ∈ handler.arguments, argument.isBuiltIn = true)
    (always : handler.acceptsAll = true) (case : Case V) (world : World V σ) :
    handler.accepts case world = (.ok true, world) := by
  obtain ⟨unconditional, available⟩ := Bool.and_eq_true_iff.1 always
  have ready : (handler.arguments.all fun argument =>
      (argument.meaning? case world.thread).isSome) = true := List.all_eq_true.2 fun argument listed =>
    Argument.meaning?_always (builtIn argument listed) case
      (List.all_eq_true.1 available argument listed) world.thread
  rw [accepts_apply builtIn, ready, if_pos rfl, List.isEmpty_iff.1 unconditional]
  rfl

/-- The flag is set just if the handler accepts whatever is asked. The host may be any. -/
theorem acceptsAll_iff (builtIn : ∀ argument ∈ handler.arguments, argument.isBuiltIn = true)
    (host : σ) :
    handler.acceptsAll = true ↔ ∀ (case : Case V) (process : Process) (thread : Thread V),
      (handler.accepts case ⟨process, thread, host⟩).1 = .ok true := by
  constructor
  · intro always case process thread
    rw [accepts_always builtIn always]
  · intro accepts
    have answer := accepts ⟨.numbered 0, .empty⟩ ⟨0, none, none⟩ (.fresh V)
    rw [accepts_bare builtIn _ Thread.fresh_bare] at answer
    exact Except.ok.inj answer

theorem accepts_returns (builtIn : ∀ argument ∈ handler.arguments, argument.isBuiltIn = true)
    (returns : ∀ condition ∈ handler.conditions, condition.Returns) (case : Case V)
    (world : World V σ) : ∃ answer, (handler.accepts case world).1 = .ok answer := by
  rw [accepts_apply builtIn]
  split
  · exact Condition.testAll_returns returns
  · exact ⟨false, rfl⟩

end Handler

namespace Chain

variable {chain : Chain V σ ρ}

theorem total_eq {last : Handler V σ ρ} (final : chain.handlers.getLast? = some last)
    (always : last.acceptsAll = true) : chain.total = .ok ⟨chain, last, final, always⟩ := by
  unfold total
  split
  · rename_i none
    rw [none] at final
    cases final
  · rename_i other listed
    obtain rfl : last = other := Option.some.inj (final.symm.trans listed)
    rw [dif_pos always]

theorem total_empty (none : chain.handlers.getLast? = none) : chain.total = .error .empty := by
  unfold total
  split
  · rfl
  · rename_i listed
    rw [none] at listed
    cases listed

theorem total_missing {last : Handler V σ ρ} (final : chain.handlers.getLast? = some last)
    (sometimes : last.acceptsAll = false) : chain.total = .error .missingCatchAll := by
  unfold total
  split
  · rename_i none
    rw [none] at final
    cases final
  · rename_i other listed
    obtain rfl : last = other := Option.some.inj (final.symm.trans listed)
    rw [dif_neg (by rw [sometimes]; exact Bool.false_ne_true)]

theorem total_cases (chain : Chain V σ ρ) :
    (chain.handlers = [] ∧ chain.total = .error .empty) ∨
    ∃ last, chain.handlers.getLast? = some last ∧
      ((last.acceptsAll = false ∧ chain.total = .error .missingCatchAll) ∨
        (last.acceptsAll = true ∧ ∃ total, chain.total = .ok total ∧ total.chain = chain)) := by
  rcases final : chain.handlers.getLast? with _ | last
  · exact .inl ⟨List.getLast?_eq_none_iff.1 final, total_empty final⟩
  · refine .inr ⟨last, rfl, ?_⟩
    cases always : last.acceptsAll with
    | false => exact .inl ⟨rfl, total_missing final always⟩
    | true => exact .inr ⟨rfl, _, total_eq final always, rfl⟩

end Chain

section Dispatching

variable [Host V σ]

/-- Of `handlers` one is invoked, which is the first that accepts, on what its arguments mean. -/
structure Invoked (case : Case V) (world : World V σ) (index : Nat) (handlers : List (Handler V σ ρ))
    (ended : Except (Exit V) (Outcome ρ) × World V σ) (before : List (Handler V σ ρ))
    (chosen : Handler V σ ρ) (after : List (Handler V σ ρ)) (readings : List (Reading V)) : Prop where
  place : handlers = before ++ chosen :: after
  passed : ∀ handler ∈ before, handler.accepts case world = (.ok false, world)
  accepts : chosen.accepts case world = (.ok true, world)
  means : chosen.arguments.map (Argument.meaning? case world.thread) = readings.map some
  handled : ended = (Outcome.handled <$> chosen.respond readings)
    ((emit (.selected case.id (index + before.length) chosen.signature) world).2.without case.id.raw
      (Arguments.moved readings))

variable {case : Case V} {world : World V σ}

theorem Tried.invoked {index : Nat} {handlers : List (Handler V σ ρ)}
    {ended : Except (Exit V) (Outcome ρ) × World V σ} (tried : Tried case world index handlers ended)
    (returns : ∀ handler ∈ handlers, ∃ answer, (handler.accepts case world).1 = .ok answer)
    (accepted : ∃ handler ∈ handlers, handler.accepts case world = (.ok true, world)) :
    ∃ before chosen after readings,
      Invoked case world index handlers ended before chosen after readings := by
  induction tried with
  | unmatched index =>
      obtain ⟨_, listed, _⟩ := accepted
      cases listed
  | @declined index handler rest ended declines _ ih =>
      obtain ⟨_, later⟩ := List.forall_mem_cons.1 returns
      obtain ⟨other, listed, accepts⟩ := accepted
      have inside : other ∈ rest := by
        rcases List.mem_cons.1 listed with rfl | inside
        · rw [declines] at accepts
          cases accepts
        · exact inside
      obtain ⟨before, chosen, after, readings, invoked⟩ := ih later ⟨other, inside, accepts⟩
      refine ⟨handler :: before, chosen, after, readings, congrArg (handler :: ·) invoked.place,
        List.forall_mem_cons.2 ⟨declines, invoked.passed⟩, invoked.accepts, invoked.means, ?_⟩
      rw [invoked.handled, List.length_cons, Nat.add_right_comm, Nat.add_assoc]
  | @left index handler rest exit leaves =>
      obtain ⟨answer, returned⟩ := returns handler List.mem_cons_self
      rw [leaves] at returned
      cases returned
  | @selected index handler rest readings accepts means =>
      exact ⟨[], handler, rest, readings, rfl, by simp, accepts, means, rfl⟩

/-- The handlers are the library's own up to what they do, and asking one returns without effect. -/
structure TotalChain.Sober (total : TotalChain V σ ρ) : Prop where
  plain : ∀ handler ∈ total.chain.handlers, handler.Plain
  free : ∀ handler ∈ total.chain.handlers, ¬Arguments.Collide handler.arguments
  returns : ∀ handler ∈ total.chain.handlers, ∀ condition ∈ handler.conditions, condition.Returns

theorem TotalChain.Sober.invokes {total : TotalChain V σ ρ} (sober : total.Sober) (id : FailureId)
    (world : World V σ) :
    ∃ before chosen after readings, Invoked ⟨id, total.chain.interest⟩ world 0 total.chain.handlers
      (total.chain.dispatch id world) before chosen after readings := by
  obtain ⟨last, final, always⟩ := total.ends
  have listed : last ∈ total.chain.handlers := List.mem_of_getLast? final
  have tried : Tried ⟨id, total.chain.interest⟩ world 0 total.chain.handlers
      (total.chain.dispatch id world) := dispatchFrom_tried sober.plain sober.free 0
  refine tried.invoked (fun handler listed => ?_) ⟨last, listed, ?_⟩
  · exact Handler.accepts_returns (sober.plain handler listed).builtIn (sober.returns handler listed)
      _ world
  · exact Handler.accepts_always (sober.plain last listed).builtIn always _ world

theorem TotalChain.dispatch_handled {total : TotalChain V σ ρ} {id : FailureId}
    {world later : World V σ} {act : Act V σ ρ}
    (handled : total.chain.dispatch id world = (Outcome.handled <$> act) later) :
    total.dispatch id world = act later := by
  rw [map_apply] at handled
  unfold TotalChain.dispatch
  rcases ended : act later with ⟨exit | value, last⟩
  · rw [ended] at handled
    rw [bind_error (by rw [handled]; rfl), handled]
  · rw [ended] at handled
    rw [bind_ok (by rw [handled]; rfl), handled]
    rfl

end Dispatching

/-- A handler of the library's own arguments has the flag just if it accepts every failure in every
state of the slots, and where no slot is open it answers by the flag. A chain becomes a total one
just if it has a last handler and that one has the flag. A total chain whose tests read and return
invokes one handler, and does nothing else but run it. -/
theorem total_chains_invoke_one_handler [Host V σ] :
    (∀ handler : Handler V σ ρ, (∀ argument ∈ handler.arguments, argument.isBuiltIn = true) →
      ∀ host : σ,
        (handler.acceptsAll = true ↔ ∀ (case : Case V) (process : Process) (thread : Thread V),
          (handler.accepts case ⟨process, thread, host⟩).1 = .ok true) ∧
        ∀ (case : Case V) (process : Process) (thread : Thread V), thread.Bare →
          handler.accepts case ⟨process, thread, host⟩ =
            (.ok handler.acceptsAll, ⟨process, thread, host⟩)) ∧
    (∀ chain : Chain V σ ρ,
      (∀ total, chain.total = .ok total → total.chain = chain) ∧
      ((∃ total, chain.total = .ok total) ↔
        ∃ last, chain.handlers.getLast? = some last ∧ last.acceptsAll = true) ∧
      (chain.total = .error .empty ↔ chain.handlers = []) ∧
      (chain.total = .error .missingCatchAll ↔
        ∃ last, chain.handlers.getLast? = some last ∧ last.acceptsAll = false)) ∧
    ∀ total : TotalChain V σ ρ, total.Sober → ∀ (id : FailureId) (world : World V σ),
      ∃ before chosen after readings,
        Invoked ⟨id, total.chain.interest⟩ world 0 total.chain.handlers
          (total.chain.dispatch id world) before chosen after readings ∧
        total.dispatch id world = chosen.respond readings
          ((emit (.selected id before.length chosen.signature) world).2.without id.raw
            (Arguments.moved readings)) := by
  refine ⟨fun handler builtIn host => ⟨Handler.acceptsAll_iff builtIn host, ?_⟩, fun chain => ?_,
    fun total sober id world => ?_⟩
  · exact fun case process thread bare => Handler.accepts_bare builtIn case bare
  · rcases chain.total_cases with ⟨none, refused⟩ | ⟨last, final, ⟨flag, refused⟩ | ⟨flag, made⟩⟩
    · simp [none, refused]
    · have some : chain.handlers ≠ [] := fun none => by simp [none] at final
      simp [final, flag, refused, some]
    · have some : chain.handlers ≠ [] := fun none => by simp [none] at final
      obtain ⟨total, accepted, same⟩ := made
      simp [final, flag, accepted, same, some]
  · obtain ⟨before, chosen, after, readings, invoked⟩ := sober.invokes id world
    have handled := invoked.handled
    rw [Nat.zero_add] at handled
    exact ⟨before, chosen, after, readings, invoked, TotalChain.dispatch_handled handled⟩

namespace Scenario

def isSmall (number : Int) : Bool := number < 8

def choosy : Handler application (Ledger application Unit) Unit where
  arguments := [.take (Topic.ofKind .echo)]
  conditions := [.holds (Topic.ofKind .echo) fun number => return isSmall number]
  respond readings := quietly (readings.forM Reading.discard)

def patient : Handler application (Ledger application Unit) Unit where
  arguments := [.optional (.optional (.take (Topic.ofKind .echo))), .summary]
  conditions := []
  respond readings := quietly (readings.forM Reading.discard)

def audience : TotalChain application (Ledger application Unit) Unit :=
  (Chain.ofList [choosy]).endWith patient rfl

theorem audience_sober : audience.Sober := by
  have handlers : audience.chain.handlers = [choosy, patient] := rfl
  refine ⟨fun handler listed => ?_, fun handler listed => ?_, fun handler listed => ?_⟩ <;>
    rw [handlers, List.mem_cons, List.mem_singleton] at listed <;> rcases listed with rfl | rfl
  · refine ⟨by decide, fun condition asked => ?_⟩
    obtain rfl := List.mem_singleton.1 asked
    exact fun value world answer returned => rfl
  · exact ⟨by decide, by simp [patient]⟩
  · exact Arguments.conflict?_iff.1 rfl
  · exact Arguments.conflict?_iff.1 rfl
  · intro condition asked
    obtain rfl := List.mem_singleton.1 asked
    exact fun value world => ⟨_, rfl⟩
  · simp [patient]

/-- The echo is not of a small number, so that the last handler takes it. -/
theorem patient_is_invoked :
    patient.accepts ⟨echoed, .empty⟩ dawn = (.ok true, dawn) ∧
    choosy.accepts ⟨echoed, .empty⟩ dawn = (.ok false, dawn) ∧
    audience.Sober ∧
    audience.dispatch echoed (overlap dawn).2 =
      patient.respond [.optional (some (.optional (some (.take (Topic.ofKind .echo) (8 : Int))))),
          .summary echoed false]
        ((emit (.selected echoed 1 patient.signature) (overlap dawn).2).2.without echoed.raw
          [Topic.ofKind .echo]) := by
  obtain ⟨flags, _, dispatches⟩ := total_chains_invoke_one_handler (V := application)
    (σ := Ledger application Unit) (ρ := Unit)
  have bare : dawn.thread.Bare := Thread.fresh_bare
  have builtIn : ∀ handler ∈ [choosy, patient], ∀ argument ∈ handler.arguments,
      argument.isBuiltIn = true := by decide
  refine ⟨?_, ?_, audience_sober, ?_⟩
  · exact (flags patient (builtIn _ (by simp)) dawn.host).2 _ _ _ bare
  · exact (flags choosy (builtIn _ (by simp)) dawn.host).2 _ _ _ bare
  · obtain ⟨before, chosen, after, readings, invoked, dispatched⟩ :=
      dispatches audience audience_sober echoed (overlap dawn).2
    have place : [choosy, patient] = before ++ chosen :: after := invoked.place
    rcases before with _ | ⟨first, _ | ⟨second, rest⟩⟩
    · obtain ⟨rfl, _⟩ := List.cons.inj place
      have accepts := congrArg Prod.fst invoked.accepts
      cases accepts
    · obtain ⟨rfl, last⟩ := List.cons.inj place
      obtain ⟨rfl, _⟩ := List.cons.inj last
      have meant : List.map some
          [.optional (some (.optional (some (.take (Topic.ofKind .echo) (8 : Int))))),
            .summary echoed false] = readings.map some := invoked.means
      rw [← List.map_injective_iff.2 (Option.some_injective _) meant] at dispatched
      exact dispatched
    · obtain ⟨rfl, last⟩ := List.cons.inj place
      obtain ⟨rfl, last⟩ := List.cons.inj last
      simp at last

end Scenario

end FaultRelay

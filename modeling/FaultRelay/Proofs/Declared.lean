import FaultRelay.Proofs.Clause
import FaultRelay.Proofs.Occurrences
import FaultRelay.Proofs.Totality

/-! The payload types of a chain. A chain collects them while handlers are added to it; a scope for
its handlers collects them once more. An interest is known by its keys in their order and by the keys
that ask for the tally, and both are functions of all the declarations in a row: the keys are their
first occurrences, and a key asks for the tally if one of its declarations does. -/
namespace FaultRelay

variable {V : Vocabulary} {σ ρ : Type}

theorem Declaration.asks_insertInto {declaration : Declaration V}
    {declarations : List (Declaration V)} {key : Key V} :
    ⟨key, true⟩ ∈ declaration.insertInto declarations ↔
      ⟨key, true⟩ ∈ declarations ∨ declaration = ⟨key, true⟩ := by
  obtain ⟨added, tallies⟩ := declaration
  induction declarations with
  | nil => simp [insertInto, eq_comm]
  | cons first rest ih =>
      obtain ⟨held, counts⟩ := first
      by_cases same : held = added
      · subst same
        cases counts <;> cases tallies <;> simp [insertInto, eq_comm, or_comm]
      · rw [insertInto, if_neg same, List.mem_cons, ih, List.mem_cons, or_assoc]

namespace Interest

theorem declarations_eq (interest : Interest V) :
    interest.declarations =
      interest.keys.map fun key => ⟨key, decide (⟨key, true⟩ ∈ interest.declarations)⟩ := by
  have own : ∀ declaration ∈ interest.declarations,
      (⟨declaration.key, decide (⟨declaration.key, true⟩ ∈ interest.declarations)⟩ :
        Declaration V) = declaration := by
    intro declaration listed
    obtain ⟨key, tallies⟩ := declaration
    cases tallies with
    | true => simp only [listed, decide_true]
    | false =>
        have alone : (⟨key, true⟩ : Declaration V) ∉ interest.declarations := by
          intro again
          have same := List.inj_on_of_nodup_map interest.once again listed rfl
          cases same
        simp only [alone, decide_false]
  rw [keys, List.map_map]
  exact (List.map_id _).symm.trans (List.map_congr_left fun declaration listed =>
    (own declaration listed).symm)

theorem eq_of_keys_of_asks {interest other : Interest V} (keys : interest.keys = other.keys)
    (asks : ∀ key, ⟨key, true⟩ ∈ interest.declarations ↔ ⟨key, true⟩ ∈ other.declarations) :
    interest = other := by
  refine ext_declarations ?_
  rw [declarations_eq interest, declarations_eq other, keys]
  simp only [asks]

theorem extend_cons (interest : Interest V) (declaration : Declaration V)
    (rest : List (Declaration V)) :
    interest.extend (declaration :: rest) = (interest.insert declaration).extend rest := rfl

theorem extend_append (interest : Interest V) (first second : List (Declaration V)) :
    interest.extend (first ++ second) = (interest.extend first).extend second :=
  List.foldl_append

theorem keys_extend (interest : Interest V) (declarations : List (Declaration V)) :
    (interest.extend declarations).keys =
      (interest.keys ++ declarations.map Declaration.key).eraseDups := by
  induction declarations generalizing interest with
  | nil =>
      have once : interest.keys.Nodup := interest.once
      rw [List.map_nil, List.append_nil, eraseDups_of_nodup once]
      rfl
  | cons declaration rest ih =>
      rw [extend_cons, ih, keys_insert, List.map_cons]
      split
      · rename_i listed
        rw [eraseDups_append_cons_of_mem listed]
      · rw [List.append_assoc]
        rfl

theorem asks_extend {interest : Interest V} {declarations : List (Declaration V)} {key : Key V} :
    ⟨key, true⟩ ∈ (interest.extend declarations).declarations ↔
      ⟨key, true⟩ ∈ interest.declarations ∨ ⟨key, true⟩ ∈ declarations := by
  induction declarations generalizing interest with
  | nil => simp [extend]
  | cons declaration rest ih =>
      rw [extend_cons, ih, insert, Declaration.asks_insertInto, List.mem_cons, or_assoc,
        eq_comm (a := declaration)]

theorem extend_ofList (interest : Interest V) (declarations : List (Declaration V)) :
    interest.extend (ofList declarations).declarations = interest.extend declarations := by
  refine eq_of_keys_of_asks ?_ fun key => ?_
  · have collected : (ofList declarations).declarations.map Declaration.key =
        (declarations.map Declaration.key).eraseDups := keys_extend .empty declarations
    rw [keys_extend, keys_extend, collected, eraseDups_append_eraseDups]
  · rw [asks_extend, asks_extend, ofList, asks_extend]
    simp [empty]

theorem extend_flatMap_ofList {ι : Type} (interest : Interest V)
    (declared : ι → List (Declaration V)) (items : List ι) :
    interest.extend (items.flatMap fun item => (ofList (declared item)).declarations) =
      interest.extend (items.flatMap declared) := by
  induction items generalizing interest with
  | nil => rfl
  | cons item rest ih =>
      rw [List.flatMap_cons, List.flatMap_cons, extend_append, extend_append, extend_ofList, ih]

theorem ofList_declarations (interest : Interest V) : ofList interest.declarations = interest := by
  refine eq_of_keys_of_asks ?_ fun key => ?_
  · exact (keys_extend .empty interest.declarations).trans (eraseDups_of_nodup interest.once)
  · rw [ofList, asks_extend]
    simp [empty]

theorem merge_assoc (first second third : Interest V) :
    (first.merge second).merge third = first.merge (second.merge third) := by
  have joined : second.merge third = ofList (second.declarations ++ third.declarations) := by
    rw [ofList, extend_append, ← ofList, ofList_declarations, merge]
  rw [joined, merge, merge, merge, extend_ofList, extend_append]

theorem merge_again (interest other : Interest V) :
    (interest.merge other).merge other = interest.merge other := by
  refine eq_of_keys_of_asks ?_ fun key => ?_
  · rw [merge, merge, ← extend_append, keys_extend, keys_extend, List.map_append,
      ← eraseDups_append_eraseDups, eraseDups_append_self, eraseDups_append_eraseDups]
  · simp only [merge, asks_extend, or_assoc, or_self]

end Interest

namespace Handler

/-- What the handler declares: its arguments in their order, and then its conditions. -/
def declared (handler : Handler V σ ρ) : List (Declaration V) :=
  handler.arguments.filterMap Argument.declaration? ++ handler.conditions.map (.of ·.key)

theorem interest_eq (handler : Handler V σ ρ) : handler.interest = .ofList handler.declared := by
  rw [interest, Arguments.interest, Interest.ofList, ← Interest.extend_append]
  rfl

theorem declared_of_argument {handler : Handler V σ ρ} {argument : Argument V}
    (listed : argument ∈ handler.arguments) {key : Key V}
    (declares : argument.declaration?.map Declaration.key = some key) :
    key ∈ handler.declared.map Declaration.key := by
  obtain ⟨declaration, given, rfl⟩ := Option.map_eq_some_iff.1 declares
  exact List.mem_map_of_mem
    (List.mem_append_left _ (List.mem_filterMap.2 ⟨argument, listed, given⟩))

theorem declared_of_condition {handler : Handler V σ ρ} {condition : Condition V σ}
    (listed : condition ∈ handler.conditions) :
    condition.key ∈ handler.declared.map Declaration.key := by
  have declares : .of condition.key ∈ handler.declared :=
    List.mem_append_right _ (List.mem_map.2 ⟨condition, listed, rfl⟩)
  exact List.mem_map_of_mem declares

end Handler

namespace Chain

theorem interest_foldl_add (handlers : List (Handler V σ ρ)) (chain : Chain V σ ρ) :
    (handlers.foldl add chain).interest =
      chain.interest.extend (handlers.flatMap Handler.declared) := by
  induction handlers generalizing chain with
  | nil => rfl
  | cons handler rest ih =>
      rw [List.foldl_cons, ih, List.flatMap_cons, Interest.extend_append, add, Interest.merge,
        handler.interest_eq, Interest.extend_ofList]

theorem interest_ofList (handlers : List (Handler V σ ρ)) :
    (ofList handlers).interest = .ofList (handlers.flatMap Handler.declared) :=
  interest_foldl_add handlers empty

theorem ofList_append (handlers : List (Handler V σ ρ)) (last : Handler V σ ρ) :
    ofList (handlers ++ [last]) = (ofList handlers).add last :=
  List.foldl_append

end Chain

theorem Scope.interest_forHandlers (handlers : List (Handler V σ ρ)) :
    (Scope.forHandlers handlers).interest = .ofList (handlers.flatMap Handler.declared) := by
  have each : handlers.flatMap (·.interest.declarations) =
      handlers.flatMap fun handler => (Interest.ofList handler.declared).declarations := by
    simp only [Handler.interest_eq]
  rw [forHandlers, each]
  exact Interest.extend_flatMap_ofList .empty Handler.declared handlers

namespace Argument

def parts : Argument V → List (Argument V)
  | optional inner => optional inner :: inner.parts
  | argument => [argument]

theorem isSome_meaning?_congr {argument : Argument V} (builtIn : argument.isBuiltIn = true)
    (case : Case V) {thread other : Thread V}
    (same : ∀ key, argument.declaration?.map Declaration.key = some key →
      thread.stack key = other.stack key) :
    (argument.meaning? case thread).isSome = (argument.meaning? case other).isSome := by
  cases argument with
  | take key | copy key => rw [meaning?, meaning?, same key rfl]
  | thrown | message => rw [meaning?, meaning?, same .thrown rfl]
  | optional | summary | report => rfl
  | custom => cases builtIn

/-- Whether the argument is available depends on the slot: another stack makes another answer. -/
def Asks (σ : Type) [Host V σ] (argument : Argument V) (key : Key V) : Prop :=
  ∃ (case : Case V) (world : World V σ) (stack : Stack key.Value),
    (argument.available case { world with thread := world.thread.setStack key stack }).1 ≠
      (argument.available case world).1

theorem declaration_of_part {argument part : Argument V} (inside : part ∈ argument.parts) :
    part.declaration? = argument.declaration? := by
  induction argument with
  | optional inner ih =>
      obtain rfl | deeper := List.mem_cons.1 inside
      · rfl
      · exact ih deeper
  | take | copy | thrown | message | summary | report | custom =>
      rw [List.mem_singleton.1 inside]

theorem isBuiltIn_of_part {argument part : Argument V} (inside : part ∈ argument.parts)
    (builtIn : argument.isBuiltIn = true) : part.isBuiltIn = true := by
  induction argument with
  | optional inner ih =>
      obtain rfl | deeper := List.mem_cons.1 inside
      · exact builtIn
      · exact ih deeper builtIn
  | take | copy | thrown | message | summary | report | custom =>
      rw [List.mem_singleton.1 inside]
      exact builtIn

theorem declares_of_asks [Host V σ] {argument : Argument V} (builtIn : argument.isBuiltIn = true)
    {key : Key V} (asks : argument.Asks σ key) :
    argument.declaration?.map Declaration.key = some key := by
  obtain ⟨case, world, stack, differ⟩ := asks
  by_contra apart
  refine differ ?_
  rw [available_apply builtIn, available_apply builtIn]
  refine isSome_meaning?_congr builtIn case fun other declares => ?_
  exact Thread.stack_setStack_other _ _ fun same => apart (same ▸ declares)

theorem asks_of_value [Host V σ] {key : Key V} (value : key.Value) {world : World V σ}
    (alive : world.thread.store ≠ none) : (take key).Asks σ key ∧ (copy key).Asks σ key := by
  let filled : Stack key.Value := ⟨[⟨.detached, 1, some ((FailureId.numbered 1).raw, value)⟩]⟩
  let bare : World V σ := { world with thread := world.thread.setStack key .empty }
  have empty : bare.thread.stack key = .empty := Thread.stack_setStack alive key _
  have full : (bare.thread.setStack key filled).stack key = filled := by
    rw [Thread.setStack_setStack _ _ _ rfl]
    exact Thread.stack_setStack alive key _
  constructor <;>
  · refine ⟨⟨.numbered 1, .empty⟩, bare, filled, ?_⟩
    simp only [available, Slot.holds_apply, full, empty]
    simp [filled, Stack.topId?, Stack.top?, Stack.empty, Frame.id]

end Argument

namespace Condition

def Judges : Condition V σ → Prop
  | holds key test => ∃ verdict : key.Value → Bool, ∀ value, test value = pure (verdict value)
  | thrown _ => True

variable [Host V σ]

theorem test_congr {condition : Condition V σ} (judges : condition.Judges) (id : FailureId)
    {world other : World V σ}
    (same : world.thread.stack condition.key = other.thread.stack condition.key) :
    ∃ answer, condition.test id world = (.ok answer, world) ∧
      condition.test id other = (.ok answer, other) := by
  cases condition with
  | thrown type =>
      refine ⟨_, rfl, ?_⟩
      have same : world.thread.stack .thrown = other.thread.stack .thrown := same
      change (Except.ok ((((other.thread.stack .thrown).valueFor id.raw).map _).getD false), other) = _
      rw [← same]
  | holds key test =>
      obtain ⟨verdict, judged⟩ := judges
      have shape : ∀ world : World V σ, (holds key test).test id world =
          (Slot.lend key id.raw test >>= fun found => pure (found.getD false)) world := fun _ => rfl
      have alone : ∀ world : World V σ, (holds key test).test id world =
          (.ok ((((world.thread.stack key).valueFor id.raw).map verdict).getD false), world) := by
        intro world
        rcases held : (world.thread.stack key).valueFor id.raw with _ | value
        · rw [shape, bind_ok (by rw [lendNothing_apply held]), lendNothing_apply held]
          rfl
        · have lent : Slot.lend key id.raw test world = (.ok (some (verdict value)), world) :=
            lend_reading held (by rw [judged]; rfl)
          rw [shape, bind_ok (by rw [lent]), lent]
          rfl
      refine ⟨_, alone world, ?_⟩
      rw [alone other, show other.thread.stack key = world.thread.stack key from same.symm]

theorem testAll_congr {conditions : List (Condition V σ)}
    (judge : ∀ condition ∈ conditions, condition.Judges) (id : FailureId) {world other : World V σ}
    (same : ∀ condition ∈ conditions,
      world.thread.stack condition.key = other.thread.stack condition.key) :
    (testAll id conditions world).1 = (testAll id conditions other).1 := by
  induction conditions with
  | nil => rfl
  | cons condition rest ih =>
      obtain ⟨judges, others⟩ := List.forall_mem_cons.1 judge
      obtain ⟨own, later⟩ := List.forall_mem_cons.1 same
      obtain ⟨answer, asked, asked'⟩ := test_congr judges id own
      unfold testAll
      rw [bind_ok (by rw [asked]), bind_ok (by rw [asked']), asked, asked']
      cases answer with
      | true => exact ih others later
      | false => rfl

end Condition

namespace Handler

/-- The slots in which the handler looks whether it accepts a failure. -/
inductive Tests [Host V σ] (handler : Handler V σ ρ) : Key V → Prop
  | argument {argument part : Argument V} {key : Key V} (listed : argument ∈ handler.arguments)
      (builtIn : argument.isBuiltIn = true) (inside : part ∈ argument.parts)
      (asks : part.Asks σ key) : Tests handler key
  | condition {condition : Condition V σ} (listed : condition ∈ handler.conditions) :
      Tests handler condition.key

structure Judges (handler : Handler V σ ρ) : Prop where
  builtIn : ∀ argument ∈ handler.arguments, argument.isBuiltIn = true
  conditions : ∀ condition ∈ handler.conditions, condition.Judges

theorem declared_of_tests [Host V σ] {handler : Handler V σ ρ} {key : Key V}
    (tests : handler.Tests key) : key ∈ handler.declared.map Declaration.key := by
  cases tests with
  | argument listed builtIn inside asks =>
      have declares := Argument.declares_of_asks (Argument.isBuiltIn_of_part inside builtIn) asks
      rw [Argument.declaration_of_part inside] at declares
      exact declared_of_argument listed declares
  | condition listed => exact declared_of_condition listed

theorem accepts_congr [Host V σ] {handler : Handler V σ ρ} (judges : handler.Judges) (case : Case V)
    {world other : World V σ}
    (same : ∀ key ∈ handler.declared.map Declaration.key,
      world.thread.stack key = other.thread.stack key) :
    (handler.accepts case world).1 = (handler.accepts case other).1 := by
  have ready : (handler.arguments.all fun argument =>
        (argument.meaning? case world.thread).isSome) =
      handler.arguments.all fun argument => (argument.meaning? case other.thread).isSome := by
    rw [Bool.eq_iff_iff, List.all_eq_true, List.all_eq_true]
    refine forall₂_congr fun argument listed => ?_
    rw [Argument.isSome_meaning?_congr (judges.builtIn argument listed) case fun key declares =>
      same key (declared_of_argument listed declares)]
  rw [accepts_apply judges.builtIn, accepts_apply judges.builtIn, ready]
  split
  · exact Condition.testAll_congr judges.conditions case.id fun condition listed =>
      same _ (declared_of_condition listed)
  · rfl

end Handler

structure Chain.Collects [Host V σ] (chain : Chain V σ ρ) : Prop where
  /-- A scope made for the handlers opens the same types in the same order with the same flags. -/
  again : (Scope.forHandlers chain.handlers).interest = chain.interest
  /-- The order is that of the first declarations, over the handlers and within each of them. -/
  order : chain.interest.keys =
    ((chain.handlers.flatMap Handler.declared).map Declaration.key).eraseDups
  /-- A type asks for the tally if any of its declarations does, be it the first or a later one. -/
  flags : ∀ key, ⟨key, true⟩ ∈ chain.interest.declarations ↔
    ⟨key, true⟩ ∈ chain.handlers.flatMap Handler.declared
  tested : ∀ handler ∈ chain.handlers, ∀ key, handler.Tests key → key ∈ chain.interest.keys
  /-- The slots of these types settle which handlers accept a failure. -/
  settled : ∀ handler ∈ chain.handlers, handler.Judges → ∀ (case : Case V) (world other : World V σ),
    (∀ key ∈ chain.interest.keys, world.thread.stack key = other.thread.stack key) →
      (handler.accepts case world).1 = (handler.accepts case other).1

theorem Chain.ofList_collects [Host V σ] (handlers : List (Handler V σ ρ)) :
    (ofList handlers).Collects := by
  have listed : ∀ handler ∈ (ofList handlers).handlers, ∀ key,
      key ∈ handler.declared.map Declaration.key → key ∈ (ofList handlers).interest.keys := by
    intro handler inside key declares
    obtain ⟨declaration, declared, rfl⟩ := List.mem_map.1 declares
    rw [handlers_ofList] at inside
    rw [interest_ofList, Interest.ofList, Interest.mem_keys_extend]
    exact .inr (List.mem_map_of_mem (List.mem_flatMap.2 ⟨handler, inside, declared⟩))
  refine ⟨?_, ?_, fun key => ?_, fun handler inside key tests => ?_,
    fun handler inside judges case world other same => ?_⟩
  · rw [Scope.interest_forHandlers, handlers_ofList, interest_ofList]
  · rw [interest_ofList, handlers_ofList]
    exact Interest.keys_extend .empty _
  · rw [interest_ofList, handlers_ofList, Interest.ofList, Interest.asks_extend]
    simp [Interest.empty]
  · exact listed handler inside key (Handler.declared_of_tests tests)
  · exact Handler.accepts_congr judges case fun key declares =>
      same key (listed handler inside key declares)

/-- Both ways to compute the payload types of a chain agree, whatever handlers were added to it, with
a last one that ends it or without: types, order and flags are the same, and they are those of the
declarations. To merge is associative, and to merge a set again changes nothing. -/
theorem chains_open_what_is_declared [Host V σ] (handlers : List (Handler V σ ρ)) :
    (Chain.ofList handlers).Collects ∧
      (∀ (last : Handler V σ ρ) (always : last.acceptsAll = true),
        ((Chain.ofList handlers).endWith last always).chain.Collects) ∧
      (∀ total, (Chain.ofList handlers).total = .ok total → total.chain.Collects) ∧
      (∀ first second third : Interest V,
        (first.merge second).merge third = first.merge (second.merge third)) ∧
      ∀ interest other : Interest V,
        (interest.merge other).merge other = interest.merge other := by
  refine ⟨Chain.ofList_collects handlers, fun last always => ?_, fun total ends => ?_,
    Interest.merge_assoc, Interest.merge_again⟩
  · have ended : ((Chain.ofList handlers).endWith last always).chain =
        .ofList (handlers ++ [last]) := (Chain.ofList_append handlers last).symm
    rw [ended]
    exact Chain.ofList_collects _
  · obtain ⟨_, failed⟩ | ⟨_, _, ⟨_, failed⟩ | ⟨_, made, succeeds, same⟩⟩ :=
      (Chain.ofList handlers).total_cases
    · rw [failed] at ends
      cases ends
    · rw [failed] at ends
      cases ends
    · obtain rfl : made = total := Except.ok.inj (succeeds.symm.trans ends)
      rw [same]
      exact Chain.ofList_collects handlers

namespace Scenario

def accountant : Handler application (Ledger application Unit) Unit where
  arguments := [.copy .tally]
  conditions := [.holds (Topic.ofKind .code) fun number => return isSmall number]
  respond _ := return

def chronicler : Handler application (Ledger application Unit) Unit where
  arguments :=
    [.optional (.take (Topic.ofKind .echo)), .report, .optional (.copy (Topic.ofKind .code))]
  conditions := []
  respond readings := quietly (readings.forM Reading.discard)

/-- The first handler declares the tally without asking for it, the second one asks. The condition of
the first gives the code its place, and both handlers look at their slots. -/
theorem late_request_counts :
    ((Chain.ofList [accountant]).endWith chronicler rfl).chain.interest.keys =
        [.tally, Topic.ofKind .code, Topic.ofKind .echo] ∧
      ⟨.tally, true⟩ ∈
        ((Chain.ofList [accountant]).endWith chronicler rfl).chain.interest.declarations ∧
      (Chain.ofList [accountant]).interest.tallies = false ∧
      .tally ∈ (Chain.ofList [accountant]).interest.keys ∧
      Topic.ofKind .code ∈ (Chain.ofList [accountant]).interest.keys := by
  obtain ⟨before, after, _⟩ := chains_open_what_is_declared [accountant]
  have ended := after chronicler rfl
  have alive : dawn.thread.store ≠ none := by simp [dawn, Thread.fresh]
  have listed : accountant ∈ (Chain.ofList [accountant]).handlers := List.mem_singleton_self _
  refine ⟨ended.order.trans rfl, (ended.flags .tally).2 ?_, rfl, ?_, ?_⟩
  · simp [Chain.endWith, Chain.add, Chain.handlers_ofList, Handler.declared, chronicler,
      Argument.declaration?, Declaration.counting]
  · exact before.tested accountant listed _ (.argument (List.mem_singleton_self _) rfl
      (List.mem_singleton_self _) (Argument.asks_of_value (.one "i32" : Tally) alive).2)
  · have asks : .holds (Topic.ofKind .code) (fun number => return isSmall number) ∈
        accountant.conditions := List.mem_singleton_self _
    exact before.tested accountant listed _ (.condition asks)

end Scenario

end FaultRelay

import FaultRelay.Proofs.FirstMatch

/-! Clauses: what a handler looks at, apart from what it does. A clause looks at slots that the scope
of its handler opens and nowhere else, and its handler answers with a function of the readings. Which
clause of a list is selected is then a function of the values that those slots hold for the failure,
and dispatch finds that one. -/
namespace FaultRelay

variable {V : Vocabulary} {σ ρ α : Type}

namespace Interest

theorem mem_keys_extend {interest : Interest V} {declarations : List (Declaration V)} {key : Key V} :
    key ∈ (interest.extend declarations).keys ↔
      key ∈ interest.keys ∨ key ∈ declarations.map Declaration.key := by
  induction declarations generalizing interest with
  | nil => simp [extend]
  | cons declaration rest ih =>
      change key ∈ ((interest.insert declaration).extend rest).keys ↔ _
      rw [ih, keys_insert]
      split
      · rename_i listed
        simp only [List.map_cons, List.mem_cons]
        exact ⟨fun found => found.elim .inl fun later => .inr (.inr later), fun found =>
          found.elim .inl fun added => added.elim (fun same => .inl (same ▸ listed)) .inr⟩
      · simp [or_assoc]

theorem any_insertInto (declaration : Declaration V) (declarations : List (Declaration V)) :
    (declaration.insertInto declarations).any Declaration.tallies =
      (declarations.any Declaration.tallies || declaration.tallies) := by
  induction declarations with
  | nil => simp [Declaration.insertInto]
  | cons first rest ih =>
      unfold Declaration.insertInto
      split
      · simp only [List.any_cons, Bool.or_assoc, Bool.or_comm declaration.tallies]
      · simp only [List.any_cons, ih, Bool.or_assoc]

theorem tallies_extend (interest : Interest V) (declarations : List (Declaration V)) :
    (interest.extend declarations).tallies =
      (interest.tallies || declarations.any Declaration.tallies) := by
  induction declarations generalizing interest with
  | nil => simp [extend]
  | cons declaration rest ih =>
      change ((interest.insert declaration).extend rest).tallies = _
      rw [ih, show (interest.insert declaration).tallies = _ from any_insertInto _ _, Bool.or_assoc]
      rfl

end Interest

namespace Argument

/-- The argument looks at one slot, which it declares. -/
def isLocal : Argument V → Bool
  | take _ | copy _ | thrown _ | message => true
  | optional inner => inner.isLocal
  | summary | report | custom _ => false

theorem isBuiltIn_of_isLocal {argument : Argument V} (isLocal : argument.isLocal = true) :
    argument.isBuiltIn = true := by
  induction argument with
  | optional inner ih => exact ih isLocal
  | custom => cases isLocal
  | take | copy | thrown | message | summary | report => rfl

theorem declares_slot {argument : Argument V} (isLocal : argument.isLocal = true) :
    ∃ key, argument.declaration? = some (.of key) := by
  induction argument with
  | take key | copy key => exact ⟨key, rfl⟩
  | thrown | message => exact ⟨.thrown, rfl⟩
  | optional inner ih => exact ih isLocal
  | summary | report | custom => cases isLocal

theorem meaning?_slot {argument : Argument V} (isLocal : argument.isLocal = true)
    {case case' : Case V} {thread thread' : Thread V} (id : case.id = case'.id)
    (same : ∀ key, argument.declaration? = some (.of key) →
      (thread.stack key).valueFor case'.id.raw = (thread'.stack key).valueFor case'.id.raw) :
    argument.meaning? case thread = argument.meaning? case' thread' := by
  induction argument with
  | take key | copy key => rw [meaning?, meaning?, id, same key rfl]
  | thrown | message => rw [meaning?, meaning?, id, same .thrown rfl]
  | optional inner ih => rw [meaning?, meaning?, ih isLocal same]
  | summary | report | custom => cases isLocal

end Argument

/-- What a handler looks at, without what it does. -/
structure Clause (V : Vocabulary) (σ : Type) where
  arguments : List (Argument V)
  questions : List (Question V σ)
  isLocal : ∀ argument ∈ arguments, argument.isLocal = true
  free : ¬Arguments.Collide arguments

namespace Clause

def candidate (clause : Clause V σ) (answer : List (Reading V) → ρ) : Candidate V σ ρ where
  arguments := clause.arguments
  questions := clause.questions
  respond readings := return answer readings
  builtIn argument listed := Argument.isBuiltIn_of_isLocal (clause.isLocal argument listed)
  free := clause.free

def handlers (answers : Nat → List (Reading V) → ρ) :
    Nat → List (Clause V σ) → List (Handler V σ ρ)
  | _, [] => []
  | index, clause :: rest =>
      (clause.candidate (answers index)).handler :: handlers answers (index + 1) rest

theorem handlers_append (answers : Nat → List (Reading V) → ρ) (index : Nat)
    (first second : List (Clause V σ)) :
    handlers answers index (first ++ second) =
      handlers answers index first ++ handlers answers (index + first.length) second := by
  induction first generalizing index with
  | nil => rfl
  | cons clause rest ih =>
      rw [List.cons_append, handlers, ih, handlers, List.cons_append, List.length_cons,
        Nat.add_right_comm, Nat.add_assoc]

def declarations (clause : Clause V σ) : List (Declaration V) :=
  (clause.candidate fun _ => ()).handler.interest.declarations

def scope (clauses : List (Clause V σ)) : Scope V := ⟨.ofList (clauses.flatMap declarations)⟩

theorem forHandlers_handlers (answers : Nat → List (Reading V) → ρ) (index : Nat)
    (clauses : List (Clause V σ)) :
    Scope.forHandlers (handlers answers index clauses) = scope clauses := by
  have same : (handlers answers index clauses).flatMap (·.interest.declarations) =
      clauses.flatMap declarations := by
    induction clauses generalizing index with
    | nil => rfl
    | cons clause rest ih =>
        rw [handlers, List.flatMap_cons, ih, List.flatMap_cons]
        rfl
  rw [Scope.forHandlers, same, scope]

def keys (clause : Clause V σ) : List (Key V) :=
  (clause.arguments.filterMap Argument.declaration?).map Declaration.key ++
    clause.questions.map (·.condition.key)

theorem mem_scope {clauses : List (Clause V σ)} {key : Key V} :
    key ∈ (scope clauses).interest.keys ↔ ∃ clause ∈ clauses, key ∈ clause.keys := by
  have own : ∀ clause : Clause V σ,
      key ∈ clause.declarations.map Declaration.key ↔ key ∈ clause.keys := by
    intro clause
    have listed : clause.declarations.map Declaration.key =
        ((Arguments.interest clause.arguments).extend
          ((clause.questions.map Question.condition).map (.of ·.key))).keys := rfl
    rw [listed, Interest.mem_keys_extend, Arguments.interest, Interest.ofList,
      Interest.mem_keys_extend, keys, List.mem_append]
    simp [Interest.empty, Interest.keys, Declaration.of, Function.comp_def]
  rw [scope, Interest.ofList, Interest.mem_keys_extend]
  simp only [List.map_flatMap, List.mem_flatMap, ← own]
  simp [Interest.empty, Interest.keys]

theorem mem_scope_append {first second : List (Clause V σ)} {key : Key V} :
    key ∈ (scope (first ++ second)).interest.keys ↔
      key ∈ (scope first).interest.keys ∨ key ∈ (scope second).interest.keys := by
  simp only [mem_scope, List.mem_append, or_and_right, exists_or]

theorem tallies_scope (clauses : List (Clause V σ)) : (scope clauses).interest.tallies = false := by
  have own : ∀ clause : Clause V σ, clause.declarations.any Declaration.tallies = false := by
    intro clause
    have listed : clause.declarations.any Declaration.tallies =
        ((Arguments.interest clause.arguments).extend
          ((clause.questions.map Question.condition).map (.of ·.key))).tallies := rfl
    have asked : (clause.arguments.filterMap Argument.declaration?).any Declaration.tallies =
        false := by
      rw [List.any_eq_false]
      intro declaration declared
      obtain ⟨argument, inside, declares⟩ := List.mem_filterMap.1 declared
      obtain ⟨key, slot⟩ := Argument.declares_slot (clause.isLocal argument inside)
      rw [slot] at declares
      cases declares
      exact Bool.false_ne_true
    rw [listed, Interest.tallies_extend, Arguments.interest, Interest.ofList,
      Interest.tallies_extend, asked]
    simp [Interest.empty, Interest.tallies, Declaration.of]
  rw [scope, Interest.ofList, Interest.tallies_extend, List.any_flatMap]
  simp [own, Interest.empty, Interest.tallies]

def qualifies (clause : Clause V σ) (id : FailureId) (thread : Thread V) : Bool :=
  (clause.candidate fun _ => ()).answer id thread

def select? (id : FailureId) (thread : Thread V) :
    Nat → List (Clause V σ) → Option (Nat × List (Reading V))
  | _, [] => none
  | index, clause :: rest =>
      if clause.qualifies id thread then
        some (index, Arguments.meanings ⟨id, .empty⟩ thread clause.arguments)
      else select? id thread (index + 1) rest

theorem select?_append (id : FailureId) (thread : Thread V) (index : Nat)
    (first second : List (Clause V σ)) :
    select? id thread index (first ++ second) =
      (select? id thread index first).or (select? id thread (index + first.length) second) := by
  induction first generalizing index with
  | nil => rfl
  | cons clause rest ih =>
      rw [List.cons_append, select?, select?, ih, List.length_cons, Nat.add_right_comm,
        Nat.add_assoc]
      split <;> rfl

/-- Selection looks at the values that the slots of the handlers hold for the failure. -/
theorem select?_congr {id : FailureId} {thread thread' : Thread V} {clauses : List (Clause V σ)}
    (same : ∀ key ∈ (scope clauses).interest.keys,
      (thread.stack key).valueFor id.raw = (thread'.stack key).valueFor id.raw) (index : Nat) :
    select? id thread index clauses = select? id thread' index clauses := by
  induction clauses generalizing index with
  | nil => rfl
  | cons clause rest ih =>
      have later : ∀ key ∈ (scope rest).interest.keys,
          (thread.stack key).valueFor id.raw = (thread'.stack key).valueFor id.raw :=
        fun key listed => same key <| mem_scope.2 <| by
          obtain ⟨other, inside, reads⟩ := mem_scope.1 listed
          exact ⟨other, List.mem_cons_of_mem _ inside, reads⟩
      have own : ∀ key ∈ clause.keys,
          (thread.stack key).valueFor id.raw = (thread'.stack key).valueFor id.raw :=
        fun key reads => same key (mem_scope.2 ⟨clause, List.mem_cons_self, reads⟩)
      have means : ∀ argument ∈ clause.arguments, argument.meaning? ⟨id, .empty⟩ thread =
          argument.meaning? ⟨id, .empty⟩ thread' := fun argument inside =>
        Argument.meaning?_slot (clause.isLocal argument inside) rfl fun key declares =>
          own key (List.mem_append_left _ (List.mem_map.2
            ⟨.of key, List.mem_filterMap.2 ⟨argument, inside, declares⟩, rfl⟩))
      have answers : ∀ question ∈ clause.questions,
          question.answer id thread = question.answer id thread' := fun question inside => by
        have found := own question.condition.key
          (List.mem_append_right _ (List.mem_map_of_mem inside))
        cases question with
        | value key judge notes => exact congrArg (Option.any judge) found
        | thrown type => exact congrArg (Option.any (·.hasType type)) found
      have qualified : clause.qualifies id thread = clause.qualifies id thread' := by
        rw [Bool.eq_iff_iff]
        simp only [qualifies, Candidate.answer, Candidate.ready, Bool.and_eq_true, List.all_eq_true]
        exact and_congr (forall₂_congr fun argument inside => by rw [means argument inside])
          (forall₂_congr fun question inside => by rw [answers question inside])
      have readings : Arguments.meanings ⟨id, .empty⟩ thread clause.arguments =
          Arguments.meanings ⟨id, .empty⟩ thread' clause.arguments := List.filterMap_congr means
      rw [select?, select?, qualified, readings, ih later]

def acceptsAll (clause : Clause V σ) : Bool := (clause.candidate fun _ => ()).handler.acceptsAll

theorem qualifies_of_acceptsAll {clause : Clause V σ} (always : clause.acceptsAll = true)
    (id : FailureId) (thread : Thread V) : clause.qualifies id thread = true := by
  obtain ⟨unasked, available⟩ := Bool.and_eq_true_iff.1 always
  have none : clause.questions = [] := List.map_eq_nil_iff.1 (List.isEmpty_iff.1 unasked)
  have ready : ∀ argument ∈ clause.arguments,
      (argument.meaning? ⟨id, .empty⟩ thread).isSome = true := by
    intro argument listed
    have isAlways : argument.always = true := List.all_eq_true.1 available argument listed
    have isLocal := clause.isLocal argument listed
    cases argument with
    | optional | summary | report => rfl
    | custom => cases isLocal
    | take | copy | thrown | message => cases isAlways
  have every : (clause.candidate fun _ => ()).ready id thread = true := List.all_eq_true.2 ready
  have unquestioned : (clause.candidate fun _ => ()).questions.all (Question.answer id thread) =
      true := by
    rw [show (clause.candidate fun _ => ()).questions = [] from none]
    rfl
  rw [qualifies, Candidate.answer, every, unquestioned]
  rfl

theorem select?_total {last : Clause V σ} (always : last.acceptsAll = true) (id : FailureId)
    (thread : Thread V) (index : Nat) (clauses : List (Clause V σ)) :
    ∃ chosen, select? id thread index (clauses ++ [last]) = some chosen := by
  rw [select?_append, select?, if_pos (qualifies_of_acceptsAll always id thread)]
  cases select? id thread index clauses with
  | some chosen => exact ⟨chosen, rfl⟩
  | none => exact ⟨_, rfl⟩

def chain (answers : Nat → List (Reading V) → ρ) (clauses : List (Clause V σ)) : Chain V σ ρ :=
  .ofList (handlers answers 0 clauses)

def total (answers : Nat → List (Reading V) → ρ) (index : Nat) (clauses : List (Clause V σ))
    (last : Clause V σ) (always : last.acceptsAll = true) : TotalChain V σ ρ :=
  (Chain.ofList (handlers answers index clauses)).endWith
    (last.candidate (answers (index + clauses.length))).handler always

variable {answers : Nat → List (Reading V) → ρ} {clauses : List (Clause V σ)} {last : Clause V σ}

theorem handlers_chain : (chain answers clauses).handlers = handlers answers 0 clauses :=
  Chain.handlers_ofList _

theorem handlers_total (always : last.acceptsAll = true) (index : Nat) :
    (total answers index clauses last always).chain.handlers =
      handlers answers index (clauses ++ [last]) := by
  rw [handlers_append]
  exact congrArg (· ++ _) (Chain.handlers_ofList _)

theorem scope_chain : Scope.forHandlers (chain answers clauses).handlers = scope clauses := by
  rw [handlers_chain, forHandlers_handlers]

theorem scope_total (always : last.acceptsAll = true) (index : Nat) :
    Scope.forHandlers (total answers index clauses last always).chain.handlers =
      scope (clauses ++ [last]) := by
  rw [handlers_total, forHandlers_handlers]

section Dispatching

variable [Host V σ]

/-- Dispatch finds what selection finds, and an unmatched failure leaves the thread as it is. -/
theorem dispatchFrom_select (answers : Nat → List (Reading V) → ρ) (case : Case V) (place index : Nat)
    (clauses : List (Clause V σ)) (world : World V σ) :
    (dispatchFrom case place (handlers answers index clauses) world).1 =
        .ok (match select? case.id world.thread index clauses with
          | some (chosen, readings) => .handled (answers chosen readings)
          | none => .unmatched case.id) ∧
      (select? case.id world.thread index clauses = none →
        (dispatchFrom case place (handlers answers index clauses) world).2.thread =
          world.thread) := by
  induction clauses generalizing place index world with
  | nil => exact ⟨rfl, fun _ => rfl⟩
  | cons clause rest ih =>
      have asked := (clause.candidate (answers index)).accepts_apply case world
      have same : (clause.candidate (answers index)).answer case.id world.thread =
          clause.qualifies case.id world.thread := rfl
      rw [same] at asked
      rw [handlers, select?]
      unfold dispatchFrom
      rw [bind_ok (by rw [asked]), asked]
      cases qualified : clause.qualifies case.id world.thread with
      | false => exact ih _ _ _
      | true =>
          refine ⟨?_, fun none => by cases none⟩
          let told := (emit (.selected case.id place
            (clause.candidate (answers index)).handler.signature)
            (world.hearing ((clause.candidate (answers index)).calls case.id world.thread))).2
          have qualifies : (clause.candidate (answers index)).Qualifies case.id told.thread :=
            Candidate.qualifies_iff.2 qualified
          have meanings : Arguments.meanings case told.thread clause.arguments =
              Arguments.meanings ⟨case.id, .empty⟩ world.thread clause.arguments :=
            List.filterMap_congr fun argument inside =>
              Argument.meaning?_slot (clause.isLocal argument inside) rfl fun _ _ => rfl
          rw [if_pos rfl, bind_ok rfl, if_pos rfl, ← meanings]
          exact congrArg Prod.fst (handled_of_answered (Candidate.answer_apply qualifies) _)

theorem dispatch_chain (id : FailureId) (world : World V σ) :
    ((chain answers clauses).dispatch id world).1 =
        .ok (match select? id world.thread 0 clauses with
          | some (chosen, readings) => .handled (answers chosen readings)
          | none => .unmatched id) ∧
      (select? id world.thread 0 clauses = none →
        ((chain answers clauses).dispatch id world).2.thread = world.thread) := by
  unfold Chain.dispatch
  rw [handlers_chain]
  exact dispatchFrom_select answers ⟨id, (chain answers clauses).interest⟩ 0 0 clauses world

theorem dispatch_total (always : last.acceptsAll = true) {index : Nat} {id : FailureId}
    {world : World V σ} {chosen : Nat × List (Reading V)}
    (selected : select? id world.thread index (clauses ++ [last]) = some chosen) :
    ((total answers index clauses last always).chain.dispatch id world).1 =
      .ok (.handled (answers chosen.1 chosen.2)) := by
  unfold Chain.dispatch
  rw [handlers_total]
  have found := (dispatchFrom_select answers
    ⟨id, (total answers index clauses last always).chain.interest⟩ 0 index (clauses ++ [last])
    world).1
  rw [found, selected]

end Dispatching

end Clause

end FaultRelay

import FaultRelay.Proofs.Selecting

/-! Dispatch is a search. What a handler requires is said of the slots at one moment, before any
handler is asked; the handler that runs is the first whose requirements are met, and the tests that
were asked on the way were shown values of the dispatched failure only. A test is taken to read
nothing but the value it is given. Besides answering it may tell the host, so that its calls can be
counted. -/
namespace FaultRelay

variable {V : Vocabulary} {σ ρ : Type}

def Thread.Holds (thread : Thread V) (id : FailureId) (key : Key V) (value : key.Value) : Prop :=
  ∃ top, (thread.stack key).top? = some top ∧ top.held = some (id.raw, value)

theorem Thread.holds_iff {thread : Thread V} {id : FailureId} {key : Key V} {value : key.Value} :
    thread.Holds id key value ↔ (thread.stack key).valueFor id.raw = some value := by
  constructor
  · rintro ⟨top, innermost, held⟩
    simp [Stack.valueFor, innermost, Frame.valueFor, Frame.holds, Frame.id, Frame.value?, held]
  · intro found
    obtain ⟨top, innermost, held⟩ := Option.bind_eq_some_iff.1 found
    exact ⟨top, innermost, Frame.held_of_valueFor held⟩

inductive Argument.Met (id : FailureId) (thread : Thread V) : Argument V → Prop
  | take {key : Key V} {value : key.Value} (holds : thread.Holds id key value) :
      Met id thread (.take key)
  | copy {key : Key V} {value : key.Value} (holds : thread.Holds id key value) :
      Met id thread (.copy key)
  | thrown {object : Thrown V} (holds : thread.Holds id .thrown object) :
      Met id thread (.thrown object.type)
  | message {object : Thrown V} {text : String} (holds : thread.Holds id .thrown object)
      (reads : object.text? = some text) : Met id thread .message
  | optional (inner : Argument V) : Met id thread (.optional inner)
  | summary : Met id thread .summary
  | report : Met id thread .report

theorem Argument.met_iff {argument : Argument V} (builtIn : argument.isBuiltIn = true)
    {case : Case V} {thread : Thread V} :
    argument.Met case.id thread ↔ (argument.meaning? case thread).isSome = true := by
  constructor
  · intro met
    cases met with
    | take holds | copy holds => simp [meaning?, Thread.holds_iff.1 holds]
    | thrown holds =>
        simp [meaning?, Thread.holds_iff.1 holds, Option.filter, Thrown.hasType]
    | message holds reads => simp [meaning?, Thread.holds_iff.1 holds, reads]
    | optional | summary | report => rfl
  · intro means
    obtain ⟨reading, means⟩ := Option.isSome_iff_exists.1 means
    cases argument with
    | take key =>
        obtain ⟨value, held, _⟩ := Option.map_eq_some_iff.1 means
        exact .take (Thread.holds_iff.2 held)
    | copy key =>
        obtain ⟨value, held, _⟩ := Option.map_eq_some_iff.1 means
        exact .copy (Thread.holds_iff.2 held)
    | thrown type =>
        obtain ⟨object, held, _⟩ := Option.map_eq_some_iff.1 means
        obtain ⟨stored, typed⟩ := Option.filter_eq_some_iff.1 held
        obtain rfl : object.type = type := of_decide_eq_true typed
        exact .thrown (Thread.holds_iff.2 stored)
    | message =>
        obtain ⟨text, held, _⟩ := Option.map_eq_some_iff.1 means
        obtain ⟨object, held, reads⟩ := Option.bind_eq_some_iff.1 held
        exact .message (Thread.holds_iff.2 held) reads
    | optional inner => exact .optional inner
    | summary => exact .summary
    | report => exact .report
    | custom => cases builtIn

/-- A condition whose test reads the value alone. `notes` is what the test tells the host. -/
inductive Question (V : Vocabulary) (σ : Type) where
  | value (key : Key V) (judge : key.Value → Bool) (notes : key.Value → σ → σ)
  | thrown (type : ThrownType V)

structure Call (V : Vocabulary) (σ : Type) where
  key : Key V
  value : key.Value
  notes : key.Value → σ → σ

def World.hearing (calls : List (Call V σ)) (world : World V σ) : World V σ :=
  { world with host := calls.foldl (fun host call => call.notes call.value host) world.host }

@[simp] theorem World.hearing_thread (calls : List (Call V σ)) (world : World V σ) :
    (world.hearing calls).thread = world.thread := rfl

theorem World.hearing_append (first second : List (Call V σ)) (world : World V σ) :
    world.hearing (first ++ second) = (world.hearing first).hearing second := by
  simp [World.hearing]

namespace Question

def condition : Question V σ → Condition V σ
  | value key judge notes => .holds key fun given => do
      quietly (Quiet.modifyHost (notes given))
      return judge given
  | thrown type => .thrown type

inductive Met (id : FailureId) (thread : Thread V) : Question V σ → Prop
  | value {key : Key V} {judge : key.Value → Bool} {notes : key.Value → σ → σ} {given : key.Value}
      (holds : thread.Holds id key given) (agrees : judge given = true) :
      Met id thread (.value key judge notes)
  | thrown {object : Thrown V} (holds : thread.Holds id .thrown object) :
      Met id thread (.thrown object.type)

def answer (id : FailureId) (thread : Thread V) : Question V σ → Bool
  | value key judge _ => ((thread.stack key).valueFor id.raw).any judge
  | thrown type => ((thread.stack .thrown).valueFor id.raw).any (·.hasType type)

def call? (id : FailureId) (thread : Thread V) : Question V σ → Option (Call V σ)
  | value key _ notes => ((thread.stack key).valueFor id.raw).map (⟨key, ·, notes⟩)
  | thrown _ => none

variable {id : FailureId} {thread : Thread V} {question : Question V σ}

theorem met_iff : question.Met id thread ↔ question.answer id thread = true := by
  cases question with
  | value key judge notes =>
      rw [answer, Option.any_eq_true_iff_get]
      constructor
      · rintro ⟨holds, agrees⟩
        have held := Thread.holds_iff.1 holds
        exact ⟨by rw [held]; rfl, by simpa [held] using agrees⟩
      · rintro ⟨found, agrees⟩
        exact .value (Thread.holds_iff.2 (Option.some_get found).symm) agrees
  | thrown type =>
      rw [answer, Option.any_eq_true_iff_get]
      constructor
      · intro met
        cases met with
        | thrown holds =>
            have held := Thread.holds_iff.1 holds
            exact ⟨by rw [held]; rfl, by simp [held, Thrown.hasType]⟩
      · rintro ⟨found, typed⟩
        obtain rfl := of_decide_eq_true typed
        exact .thrown (Thread.holds_iff.2 (Option.some_get found).symm)

/-- The questions are asked in turn, up to the first that is not met. -/
def callsOf (id : FailureId) (thread : Thread V) : List (Question V σ) → List (Call V σ)
  | [] => []
  | question :: rest =>
      (question.call? id thread).toList ++
        if question.answer id thread then callsOf id thread rest else []

theorem holds_of_call {call : Call V σ} (called : question.call? id thread = some call) :
    thread.Holds id call.key call.value := by
  cases question with
  | value key judge notes =>
      obtain ⟨given, held, rfl⟩ := Option.map_eq_some_iff.1 called
      exact Thread.holds_iff.2 held
  | thrown type => cases called

theorem holds_of_calls {questions : List (Question V σ)} :
    ∀ call ∈ callsOf id thread questions, thread.Holds id call.key call.value := by
  induction questions with
  | nil => simp [callsOf]
  | cons question rest ih =>
      intro call listed
      rcases List.mem_append.1 listed with own | later
      · exact holds_of_call (Option.mem_toList.1 own)
      · split at later
        · exact ih call later
        · cases later

variable [Host V σ] {world : World V σ}

/-- A test that only tells the host finds the slots as they were, and so does whoever comes next. -/
theorem lend_noting {key : Key V} {judge : key.Value → Bool} {notes : key.Value → σ → σ}
    {given : key.Value} (held : (world.thread.stack key).valueFor id.raw = some given) :
    Slot.lend key id.raw (fun given => (do
        quietly (Quiet.modifyHost (notes given))
        return judge given : Act V σ Bool)) world =
      (.ok (some (judge given)), { world with host := notes given world.host }) := by
  obtain ⟨top, innermost⟩ := top_of_valueFor held
  have back : Slot.restore key top.owner id.raw given
      (Slot.takeFor key id.raw { world with host := notes given world.host }).2 =
        ((), { world with host := notes given world.host }) := restore_taken innermost held
  rw [lend_apply innermost held, map_apply, ensuring_quietly_apply]
  change (_, (Slot.restore key top.owner id.raw given
    (Slot.takeFor key id.raw { world with host := notes given world.host }).2).2) = _
  rw [back]
  rfl

theorem test_apply (question : Question V σ) (id : FailureId) (world : World V σ) :
    question.condition.test id world = (.ok (question.answer id world.thread),
      world.hearing (question.call? id world.thread).toList) := by
  cases question with
  | thrown type =>
      change (Except.ok (((world.thread.stack .thrown).valueFor id.raw).map _ |>.getD false), _) = _
      unfold answer
      cases (world.thread.stack .thrown).valueFor id.raw <;> rfl
  | value key judge notes =>
      change (Slot.lend key id.raw _ >>= fun found => pure (found.getD false)) world = _
      rcases held : (world.thread.stack key).valueFor id.raw with _ | given
      · rw [bind_ok (by rw [lendNothing_apply held]), lendNothing_apply held]
        simp only [answer, call?, held]
        rfl
      · have lent : Slot.lend key id.raw _ world =
            (.ok (some (judge given)), { world with host := notes given world.host }) :=
          lend_noting held
        rw [bind_ok (by rw [lent]), lent]
        simp only [answer, call?, held]
        rfl

theorem testAll_apply (questions : List (Question V σ)) (id : FailureId) (world : World V σ) :
    Condition.testAll id (questions.map condition) world =
      (.ok (questions.all (answer id world.thread)),
        world.hearing (callsOf id world.thread questions)) := by
  induction questions generalizing world with
  | nil => rfl
  | cons question rest ih =>
      have asked := test_apply question id world
      rw [List.map_cons, Condition.testAll, bind_ok (by rw [asked]), asked, callsOf, List.all_cons]
      cases question.answer id world.thread with
      | true =>
          rw [if_pos rfl, if_pos rfl, ih, World.hearing_append]
          rfl
      | false =>
          rw [if_neg Bool.false_ne_true, if_neg Bool.false_ne_true, List.append_nil]
          rfl

end Question

/-- A handler of the library's own arguments with questions for conditions. -/
structure Candidate (V : Vocabulary) (σ ρ : Type) where
  arguments : List (Argument V)
  questions : List (Question V σ)
  respond : List (Reading V) → Act V σ ρ
  builtIn : ∀ argument ∈ arguments, argument.isBuiltIn = true
  free : ¬Arguments.Collide arguments

namespace Candidate

def handler (candidate : Candidate V σ ρ) : Handler V σ ρ :=
  ⟨candidate.arguments, candidate.questions.map Question.condition, candidate.respond⟩

structure Qualifies (candidate : Candidate V σ ρ) (id : FailureId) (thread : Thread V) : Prop where
  arguments : ∀ argument ∈ candidate.arguments, argument.Met id thread
  questions : ∀ question ∈ candidate.questions, question.Met id thread

def ready (candidate : Candidate V σ ρ) (id : FailureId) (thread : Thread V) : Bool :=
  candidate.arguments.all fun argument => (argument.meaning? ⟨id, .empty⟩ thread).isSome

/-- The calls of tests while the handler is asked. None is made if an argument is missing. -/
def calls (candidate : Candidate V σ ρ) (id : FailureId) (thread : Thread V) : List (Call V σ) :=
  if candidate.ready id thread then Question.callsOf id thread candidate.questions else []

def answer (candidate : Candidate V σ ρ) (id : FailureId) (thread : Thread V) : Bool :=
  candidate.ready id thread && candidate.questions.all (Question.answer id thread)

variable {candidate : Candidate V σ ρ} {id : FailureId} {thread : Thread V}

theorem ready_iff :
    candidate.ready id thread = true ↔ ∀ argument ∈ candidate.arguments, argument.Met id thread := by
  rw [ready, List.all_eq_true]
  exact forall₂_congr fun argument listed =>
    (Argument.met_iff (candidate.builtIn argument listed)).symm

theorem qualifies_iff : candidate.Qualifies id thread ↔ candidate.answer id thread = true := by
  have asked : (∀ question ∈ candidate.questions, question.Met id thread) ↔
      candidate.questions.all (Question.answer id thread) = true := by
    rw [List.all_eq_true]
    exact forall₂_congr fun _ _ => Question.met_iff
  rw [answer, Bool.and_eq_true, ready_iff, ← asked]
  exact ⟨fun meets => ⟨meets.arguments, meets.questions⟩, fun ⟨own, asked⟩ => ⟨own, asked⟩⟩

instance : Decidable (candidate.Qualifies id thread) := decidable_of_iff _ qualifies_iff.symm

theorem holds_of_calls :
    ∀ call ∈ candidate.calls id thread, thread.Holds id call.key call.value := by
  intro call listed
  unfold calls at listed
  split at listed
  · exact Question.holds_of_calls call listed
  · cases listed

variable [Host V σ]

/-- The library makes just such handlers of such arguments. -/
theorem make_apply (candidate : Candidate V σ ρ) (world : World V σ) :
    Handler.make candidate.arguments (candidate.questions.map Question.condition)
      candidate.respond world = (.ok candidate.handler, world) := by
  rw [FaultRelay.make_apply candidate.builtIn, Arguments.conflict?_iff.2 candidate.free]
  rfl

theorem available_apply (candidate : Candidate V σ ρ) (case : Case V) (world : World V σ) :
    Arguments.available case candidate.arguments world =
      (candidate.ready case.id world.thread, world) := by
  rw [Arguments.available_apply candidate.builtIn]
  refine Prod.ext ?_ rfl
  rw [Bool.eq_iff_iff, ready_iff, List.all_eq_true]
  exact forall₂_congr fun argument listed =>
    (Argument.met_iff (candidate.builtIn argument listed)).symm

theorem accepts_apply (candidate : Candidate V σ ρ) (case : Case V) (world : World V σ) :
    candidate.handler.accepts case world = (.ok (candidate.answer case.id world.thread),
      world.hearing (candidate.calls case.id world.thread)) := by
  have found : (quietly (Arguments.available case candidate.handler.arguments) : Act V σ Bool) world =
      (.ok (candidate.ready case.id world.thread), world) := by
    unfold quietly
    rw [handler, available_apply]
  have tested := Question.testAll_apply candidate.questions case.id world
  unfold Handler.accepts calls answer
  rw [bind_ok (by rw [found]), found]
  cases candidate.ready case.id world.thread with
  | true => exact tested
  | false => rfl

omit [Host V σ] in
theorem Qualifies.available {candidate : Candidate V σ ρ} {case : Case V}
    (qualifies : candidate.Qualifies case.id thread) :
    ∀ argument ∈ candidate.arguments, (argument.meaning? case thread).isSome = true :=
  fun argument listed =>
    (Argument.met_iff (candidate.builtIn argument listed)).1 (qualifies.arguments argument listed)

theorem answer_apply {candidate : Candidate V σ ρ} {case : Case V} {world : World V σ}
    (qualifies : candidate.Qualifies case.id world.thread) :
    candidate.handler.answer? case world =
      (some <$> candidate.respond (Arguments.meanings case world.thread candidate.arguments))
        (world.without case.id.raw
          (Arguments.moved (Arguments.meanings case world.thread candidate.arguments))) := by
  -- Conditions do not matter any more once a handler was selected.
  let bare : Handler V σ ρ := ⟨candidate.arguments, [], candidate.respond⟩
  have plain : bare.Plain := ⟨candidate.builtIn, by simp [bare]⟩
  have answered : bare.answer? case world = _ :=
    FaultRelay.answer_apply plain candidate.free qualifies.available
  exact answered

def callsOf (id : FailureId) (thread : Thread V) (candidates : List (Candidate V σ ρ)) :
    List (Call V σ) :=
  candidates.flatMap (calls · id thread)

/-- None of `candidates` qualifies, and nothing but the host has noticed that they were asked. -/
structure Passed (case : Case V) (world : World V σ) (candidates : List (Candidate V σ ρ))
    (ended : Except (Exit V) (Outcome ρ) × World V σ) : Prop where
  none : ∀ candidate ∈ candidates, ¬candidate.Qualifies case.id world.thread
  unmatched : ended = (.ok (.unmatched case.id),
    (emit (.unmatched case.id) (world.hearing (callsOf case.id world.thread candidates))).2)

/-- Of `candidates` the first that qualifies has run, once, and on what its arguments meant before
any of them was asked. `index` is the number of the first. -/
structure Selected (case : Case V) (world : World V σ) (index : Nat)
    (candidates : List (Candidate V σ ρ))
    (ended : Except (Exit V) (Outcome ρ) × World V σ) (before : List (Candidate V σ ρ))
    (chosen : Candidate V σ ρ) (after : List (Candidate V σ ρ)) (readings : List (Reading V)) :
    Prop where
  place : candidates = before ++ chosen :: after
  passed : ∀ candidate ∈ before, ¬candidate.Qualifies case.id world.thread
  qualifies : chosen.Qualifies case.id world.thread
  means : chosen.arguments.map (Argument.meaning? case world.thread) = readings.map some
  handled : ended = (Outcome.handled <$> chosen.respond readings)
    ((emit (.selected case.id (index + before.length) chosen.handler.signature)
      (world.hearing (callsOf case.id world.thread (before ++ [chosen])))).2.without case.id.raw
        (Arguments.moved readings))

theorem dispatchFrom_apply (candidates : List (Candidate V σ ρ)) (case : Case V) (index : Nat)
    (world : World V σ) :
    Passed case world candidates (dispatchFrom case index (candidates.map handler) world) ∨
      ∃ before chosen after readings, Selected case world index candidates
        (dispatchFrom case index (candidates.map handler) world) before chosen after readings := by
  induction candidates generalizing index world with
  | nil => exact .inl ⟨by simp, rfl⟩
  | cons candidate rest ih =>
      have asked := candidate.accepts_apply case world
      unfold List.map dispatchFrom
      rw [bind_ok (by rw [asked]), asked]
      -- the world moves on by the calls of the tests, which only the host hears
      cases answered : candidate.answer case.id world.thread with
      | true =>
          have qualifies := qualifies_iff.2 answered
          let told := (emit (.selected case.id index candidate.handler.signature)
            (world.hearing (candidate.calls case.id world.thread))).2
          have still : candidate.Qualifies case.id told.thread := qualifies
          refine .inr ⟨[], candidate, rest, _, rfl, by simp, qualifies,
            Arguments.map_meanings qualifies.available, ?_⟩
          have calls : callsOf case.id world.thread ([] ++ [candidate]) =
              candidate.calls case.id world.thread := by simp [callsOf]
          rw [if_pos rfl, bind_ok rfl, calls]
          exact handled_of_answered (answer_apply still) _
      | false =>
          have declines : ¬candidate.Qualifies case.id world.thread := fun qualifies => by
            rw [qualifies_iff.1 qualifies] at answered
            cases answered
          have calls : ∀ others, (world.hearing (candidate.calls case.id world.thread)).hearing
              (callsOf case.id world.thread others) =
                world.hearing (callsOf case.id world.thread (candidate :: others)) := fun others =>
            (World.hearing_append _ _ _).symm
          rw [if_neg Bool.false_ne_true]
          rcases ih (index + 1) (world.hearing (candidate.calls case.id world.thread)) with
            passed | ⟨before, chosen, after, readings, selected⟩
          · exact .inl ⟨List.forall_mem_cons.2 ⟨declines, passed.none⟩,
              by rw [passed.unmatched, ← calls]; rfl⟩
          · refine .inr ⟨candidate :: before, chosen, after, readings,
              congrArg (candidate :: ·) selected.place,
              List.forall_mem_cons.2 ⟨declines, selected.passed⟩, selected.qualifies,
              selected.means, ?_⟩
            rw [selected.handled, List.cons_append, ← calls, List.length_cons, Nat.add_right_comm,
              Nat.add_assoc]
            rfl

end Candidate

/-- Asking any handler of a list answers whether it qualifies, changes no slot, and shows the tests
nothing but values of the failure. Dispatch then runs the first that qualifies, or finds the failure
unmatched and leaves the thread as it is. -/
theorem dispatch_runs_the_first_that_qualifies [Host V σ] (candidates : List (Candidate V σ ρ))
    (case : Case V) (world : World V σ) :
    (∀ candidate ∈ candidates,
      candidate.handler.accepts case world =
        (.ok (decide (candidate.Qualifies case.id world.thread)),
          world.hearing (candidate.calls case.id world.thread)) ∧
      (candidate.handler.accepts case world).2.thread = world.thread ∧
      ∀ call ∈ candidate.calls case.id world.thread,
        world.thread.Holds case.id call.key call.value) ∧
    ((Candidate.Passed case world candidates
        (Chain.dispatch ⟨candidates.map Candidate.handler, case.interest⟩ case.id world) ∧
      (Chain.dispatch ⟨candidates.map Candidate.handler, case.interest⟩ case.id world).2.thread =
        world.thread) ∨
      ∃ before chosen after readings, Candidate.Selected case world 0 candidates
        (Chain.dispatch ⟨candidates.map Candidate.handler, case.interest⟩ case.id world)
        before chosen after readings) := by
  refine ⟨fun candidate _ => ?_, ?_⟩
  · have asked := candidate.accepts_apply case world
    have answer : candidate.answer case.id world.thread =
        decide (candidate.Qualifies case.id world.thread) := by
      rw [Bool.eq_iff_iff, decide_eq_true_iff, Candidate.qualifies_iff]
    exact ⟨by rw [asked, answer], by rw [asked]; rfl, Candidate.holds_of_calls⟩
  · rcases Candidate.dispatchFrom_apply candidates case 0 world with passed | selected
    · exact .inl ⟨passed, congrArg (fun ended => ended.2.thread) passed.unmatched⟩
    · exact .inr selected

/-- Whether a value is one of a list is a question, too. -/
example (key : Key V) (same : key.Value → key.Value → Bool) (values : List key.Value) :
    (Question.value key (fun given => values.any (same · given)) fun _ host => host :
      Question V σ).condition = .among key same values := rfl

namespace Scenario

def awaiting (judge : Int → Bool) : Candidate application (Ledger application Unit) Unit where
  arguments := [.take (Topic.ofKind .echo)]
  questions := [.value (Topic.ofKind .echo) judge fun _ host => host]
  respond readings := quietly (readings.forM Reading.discard)
  builtIn := by decide
  free := Arguments.conflict?_iff.1 rfl

/-- The first handler is asked in vain; it has left the echo for the second. -/
theorem second_handler_hears_the_echo :
    Candidate.Selected ⟨echoed, .empty⟩ (overlap dawn).2 0 [awaiting (· < 8), awaiting (7 < ·)]
      (Chain.dispatch ⟨[(awaiting (· < 8)).handler, (awaiting (7 < ·)).handler], .empty⟩ echoed
        (overlap dawn).2)
      [awaiting (· < 8)] (awaiting (7 < ·)) [] [.take (Topic.ofKind .echo) (8 : Int)] := by
  have declines : ¬(awaiting (· < 8)).Qualifies echoed (overlap dawn).2.thread := by decide
  have accepts : (awaiting (7 < ·)).Qualifies echoed (overlap dawn).2.thread := by decide
  obtain ⟨_, ⟨passed, _⟩ | ⟨before, chosen, after, readings, selected⟩⟩ :=
    dispatch_runs_the_first_that_qualifies [awaiting (· < 8), awaiting (7 < ·)] ⟨echoed, .empty⟩
      (overlap dawn).2
  · exact absurd accepts (passed.none _ (by simp))
  · have place := selected.place
    rcases before with _ | ⟨first, _ | ⟨second, rest⟩⟩
    · obtain ⟨rfl, _⟩ := List.cons.inj place
      exact absurd selected.qualifies declines
    · obtain ⟨rfl, last⟩ := List.cons.inj place
      obtain ⟨rfl, rfl⟩ := List.cons.inj last
      have meant : List.map some [.take (Topic.ofKind .echo) (8 : Int)] = readings.map some :=
        selected.means
      rw [List.map_injective_iff.2 (Option.some_injective _) meant]
      exact selected
    · obtain ⟨rfl, last⟩ := List.cons.inj place
      obtain ⟨rfl, _⟩ := List.cons.inj last
      exact absurd accepts (selected.passed _ (by simp))

end Scenario

end FaultRelay

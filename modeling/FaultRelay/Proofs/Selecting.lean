import FaultRelay.Handler.Selection
import FaultRelay.Proofs.ArgumentMeaning
import FaultRelay.Proofs.Echo
import FaultRelay.Proofs.Outcome

/-! A handler that was selected gets its arguments. Tests that only read leave the slots as they are,
so that what was available when the handler was asked is still there when its arguments are
produced, in whatever order it lists them. -/
namespace FaultRelay

variable {V : Vocabulary} {σ ρ : Type}

namespace Condition

/-- A test that returns has changed nothing. -/
def OnlyReads : Condition V σ → Prop
  | holds _ test => ∀ value world answer,
      (test value world).1 = .ok answer → (test value world).2 = world
  | thrown _ => True

variable [Host V σ] {id : FailureId} {world : World V σ}

theorem test_reading {condition : Condition V σ} (reads : condition.OnlyReads) {answer : Bool}
    (returned : (condition.test id world).1 = .ok answer) :
    condition.test id world = (.ok answer, world) := by
  cases condition with
  | thrown type =>
      cases returned
      rfl
  | holds key test =>
      have shape : (holds key test).test id world =
          (Slot.lend key id.raw test >>= fun found => pure (found.getD false)) world := rfl
      rw [shape] at returned ⊢
      rcases held : (world.thread.stack key).valueFor id.raw with _ | value
      · rw [bind_ok (by rw [lendNothing_apply held]), lendNothing_apply held] at returned ⊢
        cases returned
        rfl
      · rcases asked : (test value (Slot.takeFor key id.raw world).2).1 with exit | found
        · obtain ⟨top, innermost⟩ := top_of_valueFor held
          have left : ∃ exit, (Slot.lend key id.raw test world).1 = .error exit := by
            rw [lend_apply innermost held, map_apply, ensuring_quietly_apply, asked]
            cases exit <;> exact ⟨_, rfl⟩
          obtain ⟨exit, left⟩ := left
          rw [bind_error left] at returned
          cases returned
        · have same : test value (Slot.takeFor key id.raw world).2 =
              (.ok found, (Slot.takeFor key id.raw world).2) :=
            Prod.ext asked (reads _ _ _ asked)
          have lent := lend_reading held same
          rw [bind_ok (by rw [lent]), lent] at returned ⊢
          cases returned
          rfl

theorem testAll_reading {conditions : List (Condition V σ)}
    (reads : ∀ condition ∈ conditions, condition.OnlyReads) {answer : Bool}
    (returned : (testAll id conditions world).1 = .ok answer) :
    testAll id conditions world = (.ok answer, world) := by
  induction conditions with
  | nil =>
      cases returned
      rfl
  | cons condition rest ih =>
      obtain ⟨first, later⟩ := List.forall_mem_cons.1 reads
      unfold testAll at returned ⊢
      rcases asked : (condition.test id world).1 with exit | found
      · rw [bind_error asked] at returned
        cases returned
      · have same := test_reading first asked
        rw [bind_ok asked, same] at returned ⊢
        cases found with
        | true => exact ih later returned
        | false =>
            cases returned
            rfl

end Condition

namespace Handler

structure Plain (handler : Handler V σ ρ) : Prop where
  builtIn : ∀ argument ∈ handler.arguments, argument.isBuiltIn = true
  reads : ∀ condition ∈ handler.conditions, condition.OnlyReads

variable [Host V σ] {handler : Handler V σ ρ} {case : Case V} {world : World V σ}

/-- Asking a handler changes nothing, and one that accepts has all its arguments. -/
theorem accepts_reading (plain : handler.Plain) {answer : Bool}
    (returned : (handler.accepts case world).1 = .ok answer) :
    handler.accepts case world = (.ok answer, world) ∧
      (answer = true → ∀ argument ∈ handler.arguments,
        (argument.meaning? case world.thread).isSome = true) := by
  have asked := Arguments.available_apply plain.builtIn case world
  have shape : handler.accepts case world =
      (quietly (Arguments.available case handler.arguments) >>= fun ready =>
        if ready then Condition.testAll case.id handler.conditions else pure false) world := rfl
  have ready : (quietly (Arguments.available case handler.arguments) : Act V σ Bool) world =
      (.ok (handler.arguments.all fun argument =>
        (argument.meaning? case world.thread).isSome), world) := by
    unfold quietly
    rw [asked]
  rw [shape, bind_ok (by rw [ready]), ready] at returned
  rw [shape, bind_ok (by rw [ready]), ready]
  cases all : handler.arguments.all fun argument => (argument.meaning? case world.thread).isSome with
  | false =>
      rw [all] at returned
      cases returned
      exact ⟨rfl, Bool.noConfusion⟩
  | true =>
      rw [all] at returned
      exact ⟨Condition.testAll_reading plain.reads returned, fun _ => List.all_eq_true.1 all⟩

end Handler

namespace Arguments

def Collide (arguments : List (Argument V)) : Prop :=
  ∃ (i j : Nat) (first second : Argument V) (key : Key V), i < j ∧
    arguments[i]? = some first ∧ arguments[j]? = some second ∧ first.Moves key ∧ second.Moves key

theorem conflict?_iff {arguments : List (Argument V)} :
    conflict? arguments = none ↔ ¬Collide arguments := by
  rw [conflict?_eq_none, List.pairwise_iff_getElem]
  constructor
  · rintro apart ⟨i, j, first, second, key, before, here, there, moves, again⟩
    obtain ⟨inside, rfl⟩ := List.getElem?_eq_some_iff.1 here
    obtain ⟨within, rfl⟩ := List.getElem?_eq_some_iff.1 there
    exact apart i j inside within before key (Argument.moves_iff.1 moves)
      (Argument.moves_iff.1 again)
  · intro apart i j inside within before key taken again
    refine apart ⟨i, j, arguments[i], arguments[j], key, before, ?_, ?_, ?_, ?_⟩
    · exact List.getElem?_eq_getElem inside
    · exact List.getElem?_eq_getElem within
    · exact Argument.moves_iff.2 taken
    · exact Argument.moves_iff.2 again

theorem zip_meanings {case : Case V} {thread : Thread V} {arguments : List (Argument V)}
    (means : ∀ argument ∈ arguments, (argument.meaning? case thread).isSome = true) :
    arguments.zip (meanings case thread arguments) =
      arguments.filterMap fun argument => (argument.meaning? case thread).map (argument, ·) := by
  induction arguments with
  | nil => rfl
  | cons argument rest ih =>
      obtain ⟨first, later⟩ := List.forall_mem_cons.1 means
      obtain ⟨reading, meant⟩ := Option.isSome_iff_exists.1 first
      have rest := ih later
      unfold meanings at *
      simp [meant, rest]

theorem map_meanings {case : Case V} {thread : Thread V} {arguments : List (Argument V)}
    (means : ∀ argument ∈ arguments, (argument.meaning? case thread).isSome = true) :
    arguments.map (Argument.meaning? case thread) = (meanings case thread arguments).map some := by
  induction arguments with
  | nil => rfl
  | cons argument rest ih =>
      obtain ⟨first, later⟩ := List.forall_mem_cons.1 means
      obtain ⟨reading, meant⟩ := Option.isSome_iff_exists.1 first
      have rest := ih later
      unfold meanings at *
      simp [meant, rest]

end Arguments

section Dispatching

variable [Host V σ] {case : Case V} {world : World V σ}

theorem make_apply {arguments : List (Argument V)}
    (builtIn : ∀ argument ∈ arguments, argument.isBuiltIn = true)
    (conditions : List (Condition V σ)) (respond : List (Reading V) → Act V σ ρ)
    (world : World V σ) :
    Handler.make arguments conditions respond world =
      match Arguments.conflict? arguments with
      | some key => Act.unwind (.message (Arguments.conflictText key)) world
      | none => (.ok ⟨arguments, conditions, respond⟩, world) := by
  have announced : (quietly (Arguments.announce .empty arguments) : Act V σ Unit) world =
      (.ok (), world) := by
    unfold quietly
    rw [Arguments.announce_apply builtIn]
  unfold Handler.make
  rw [bind_ok (by rw [announced]), announced]
  cases Arguments.conflict? arguments <;> rfl

theorem answer_apply {handler : Handler V σ ρ} (plain : handler.Plain)
    (free : ¬Arguments.Collide handler.arguments)
    (means : ∀ argument ∈ handler.arguments, (argument.meaning? case world.thread).isSome = true) :
    handler.answer? case world =
      (some <$> handler.respond (Arguments.meanings case world.thread handler.arguments))
        (world.without case.id.raw
          (Arguments.moved (Arguments.meanings case world.thread handler.arguments))) := by
  have produced := Arguments.produce_meanings plain.builtIn (Arguments.conflict?_iff.2 free) means
  have given : (quietly (Arguments.produce case handler.arguments) : Act V σ _) world =
      (.ok (some (Arguments.meanings case world.thread handler.arguments)), world.without case.id.raw
        (Arguments.moved (Arguments.meanings case world.thread handler.arguments))) := by
    unfold quietly
    rw [produced]
  unfold Handler.answer?
  rw [bind_ok (by rw [given]), given]

omit [Host V σ] in
theorem handled_of_answered {answering : Act V σ (Option ρ)} {responding : Act V σ ρ}
    {told last : World V σ} (answered : answering told = (some <$> responding) last)
    (otherwise : Act V σ (Outcome ρ)) :
    (answering >>= fun answer =>
      match answer with
      | some value => pure (.handled value)
      | none => otherwise) told = (Outcome.handled <$> responding) last := by
  rw [map_apply] at answered ⊢
  rcases reply : responding last with ⟨exit | value, after⟩
  · rw [reply] at answered
    rw [bind_error (by rw [answered]; rfl), answered]
    rfl
  · rw [reply] at answered
    rw [bind_ok (by rw [answered]; rfl), answered]
    rfl

/-- How a list of handlers is gone through. No case is left for an argument that is missing. -/
inductive Tried (case : Case V) (world : World V σ) :
    Nat → List (Handler V σ ρ) → Except (Exit V) (Outcome ρ) × World V σ → Prop
  | unmatched (index : Nat) :
      Tried case world index []
        (.ok (.unmatched case.id), (emit (.unmatched case.id) world).2)
  | declined {index : Nat} {handler : Handler V σ ρ} {rest : List (Handler V σ ρ)} {ended}
      (declines : handler.accepts case world = (.ok false, world))
      (later : Tried case world (index + 1) rest ended) :
      Tried case world index (handler :: rest) ended
  | left {index : Nat} {handler : Handler V σ ρ} {rest : List (Handler V σ ρ)} {exit : Exit V}
      (leaves : (handler.accepts case world).1 = .error exit) :
      Tried case world index (handler :: rest) (.error exit, (handler.accepts case world).2)
  | selected {index : Nat} {handler : Handler V σ ρ} {rest : List (Handler V σ ρ)}
      {readings : List (Reading V)} (accepts : handler.accepts case world = (.ok true, world))
      (means : handler.arguments.map (Argument.meaning? case world.thread) = readings.map some) :
      Tried case world index (handler :: rest)
        ((Outcome.handled <$> handler.respond readings)
          ((emit (.selected case.id index handler.signature) world).2.without case.id.raw
            (Arguments.moved readings)))

theorem dispatchFrom_tried {handlers : List (Handler V σ ρ)}
    (plain : ∀ handler ∈ handlers, handler.Plain)
    (free : ∀ handler ∈ handlers, ¬Arguments.Collide handler.arguments) (index : Nat) :
    Tried case world index handlers (dispatchFrom case index handlers world) := by
  induction handlers generalizing index with
  | nil => exact .unmatched index
  | cons handler rest ih =>
      obtain ⟨own, others⟩ := List.forall_mem_cons.1 plain
      obtain ⟨alone, apart⟩ := List.forall_mem_cons.1 free
      unfold dispatchFrom
      rcases asked : (handler.accepts case world).1 with exit | found
      · rw [bind_error asked]
        exact .left asked
      · obtain ⟨same, ready⟩ := Handler.accepts_reading own asked
        rw [bind_ok asked, same]
        cases found with
        | false => exact .declined same (ih others apart (index + 1))
        | true =>
            have means := ready rfl
            have answered : handler.answer? case
                (emit (.selected case.id index handler.signature) world).2 = _ :=
              answer_apply own alone means
            rw [if_pos rfl, bind_ok rfl]
            have finished := handled_of_answered answered
              (Act.unwind (.message (brokenText index handler.signature case.id)))
            have chosen : Tried case world index (handler :: rest) _ :=
              .selected same (Arguments.map_meanings means)
            exact finished ▸ chosen

end Dispatching

section Order

variable [Host V σ] {case : Case V} {world : World V σ} {arguments others : List (Argument V)}

/-- The arguments are produced as `readings`, each as it was meant at the start, and only what those
own has left its slot. -/
structure Arguments.Yields (case : Case V) (world : World V σ) (arguments : List (Argument V))
    (readings : List (Reading V)) : Prop where
  means : arguments.map (Argument.meaning? case world.thread) = readings.map some
  produced : produce case arguments world =
    (some readings, world.without case.id.raw (moved readings))
  slots : ∀ key, (world.without case.id.raw (moved readings)).thread.stack key =
    if key ∈ moved readings then ((world.thread.stack key).takeFor case.id.raw).2
    else world.thread.stack key

theorem Arguments.yields (builtIn : ∀ argument ∈ arguments, argument.isBuiltIn = true)
    (free : ¬Collide arguments)
    (means : ∀ argument ∈ arguments, (argument.meaning? case world.thread).isSome = true) :
    Yields case world arguments (meanings case world.thread arguments) where
  means := map_meanings means
  produced := produce_meanings builtIn (conflict?_iff.2 free) means
  slots := World.stack_without case.id.raw _ world

omit [Host V σ] in
theorem Arguments.collide_perm (permuted : arguments.Perm others) (free : ¬Collide arguments) :
    ¬Collide others := by
  rw [← conflict?_iff, conflict?, repeated?_eq_none] at *
  obtain ⟨once, _⟩ := free
  exact ⟨(permuted.filterMap _).nodup_iff.1 once, by simp⟩

omit [Host V σ] in
theorem Arguments.moved_perm (permuted : arguments.Perm others) (thread : Thread V) (key : Key V) :
    key ∈ moved (meanings case thread others) ↔ key ∈ moved (meanings case thread arguments) :=
  ((permuted.filterMap _).flatMap_right _).mem_iff.symm

end Order

/-- A handler is refused just if two of its arguments move a value out of one slot. One that is not,
and that accepts a failure, has all its arguments produced as they are meant at that moment, and so
has any handler that lists the same arguments in another order. Of a list of such handlers either
none accepts, or asking one of them unwinds, or the first that accepts is given its readings. -/
theorem selected_handlers_get_their_arguments [Host V σ] {handler : Handler V σ ρ}
    (plain : handler.Plain) :
    (∀ world : World V σ,
      (Arguments.Collide handler.arguments → ∃ key : Key V,
        (Handler.make handler.arguments handler.conditions handler.respond world).1 =
          .error (.unwinding (.message (Arguments.conflictText key)))) ∧
      (¬Arguments.Collide handler.arguments →
        Handler.make handler.arguments handler.conditions handler.respond world =
          (.ok handler, world))) ∧
    (¬Arguments.Collide handler.arguments → ∀ (case : Case V) (world : World V σ),
      (handler.accepts case world).1 = .ok true →
        ∃ readings, Arguments.Yields case world handler.arguments readings ∧
          ∀ others, handler.arguments.Perm others → ∃ permuted,
            Arguments.Yields case world others permuted ∧
            (others.zip permuted).Perm (handler.arguments.zip readings) ∧
            ∀ key, (world.without case.id.raw (Arguments.moved permuted)).thread.stack key =
              (world.without case.id.raw (Arguments.moved readings)).thread.stack key) ∧
    ∀ handlers : List (Handler V σ ρ), (∀ other ∈ handlers, other.Plain) →
      (∀ other ∈ handlers, ¬Arguments.Collide other.arguments) →
      ∀ (case : Case V) (index : Nat) (world : World V σ),
        Tried case world index handlers (dispatchFrom case index handlers world) := by
  refine ⟨fun world => ⟨fun collide => ?_, fun free => ?_⟩, fun free case world accepted => ?_,
    fun handlers own apart case index world => dispatchFrom_tried own apart index⟩
  · obtain ⟨key, conflict⟩ := Option.ne_none_iff_exists'.1 fun none =>
      Arguments.conflict?_iff.1 none collide
    refine ⟨key, ?_⟩
    rw [make_apply plain.builtIn, conflict]
    rfl
  · rw [make_apply plain.builtIn, Arguments.conflict?_iff.2 free]
  · obtain ⟨_, ready⟩ := Handler.accepts_reading plain accepted
    have means := ready rfl
    refine ⟨_, Arguments.yields plain.builtIn free means, fun others permuted => ?_⟩
    have meansToo : ∀ argument ∈ others, (argument.meaning? case world.thread).isSome = true :=
      fun argument listed => means argument (permuted.mem_iff.2 listed)
    refine ⟨_, Arguments.yields (fun argument listed =>
      plain.builtIn argument (permuted.mem_iff.2 listed)) (Arguments.collide_perm permuted free)
      meansToo, ?_, fun key => ?_⟩
    · rw [Arguments.zip_meanings means, Arguments.zip_meanings meansToo]
      exact (permuted.filterMap _).symm
    · simp only [World.stack_without, Arguments.moved_perm permuted]

def Scenario.listener : Handler Scenario.application (Ledger Scenario.application Unit) Unit :=
  ⟨[.take (Topic.ofKind .echo), .copy (Topic.ofKind .echo), .summary], [],
    fun readings => quietly (readings.forM Reading.discard)⟩

/-- The copy is that of the echo that was taken. -/
theorem listener_hears_the_echo_twice :
    Arguments.Yields ⟨Scenario.echoed, .empty⟩ (Scenario.overlap Scenario.dawn).2
      Scenario.listener.arguments
      [.take (Scenario.Topic.ofKind .echo) (8 : Int), .copy (Scenario.Topic.ofKind .echo) (8 : Int),
        .summary Scenario.echoed false] := by
  have plain : Scenario.listener.Plain := ⟨by decide, by simp [Scenario.listener]⟩
  obtain ⟨_, gets, _⟩ := selected_handlers_get_their_arguments plain
  obtain ⟨readings, yields, _⟩ := gets (Arguments.conflict?_iff.1 rfl) ⟨Scenario.echoed, .empty⟩
    (Scenario.overlap Scenario.dawn).2 rfl
  have meant : List.map some [.take (Scenario.Topic.ofKind .echo) (8 : Int),
      .copy (Scenario.Topic.ofKind .echo) (8 : Int), .summary Scenario.echoed false] =
        readings.map some := yields.means
  rw [List.map_injective_iff.2 (Option.some_injective _) meant]
  exact yields

end FaultRelay

import FaultRelay.Proofs.Outcome
import FaultRelay.Proofs.Program

/-! Two runs of one program. A coupling relates the worlds that the runs are in, together with the
scopes that are still to be left, and holds on through every single step. Then it holds on through
every program: the runs answer alike, end alike, and end in related worlds. An invariant is the case
of one run that is compared with itself. -/
namespace FaultRelay

variable {V : Vocabulary} {σ α β ι : Type}

namespace World

def started (world : World V σ) : World V σ := { world with thread := .fresh V }

def rejoined (world later : World V σ) : World V σ := { later with thread := world.thread }

def unwound (world : World V σ) : World V σ :=
  { world with thread.unwindings := world.thread.unwindings + 1 }

end World

theorem attempt_stops {act : Act V σ α} {world : World V σ} (object : Thrown V) :
    (act.attempt world).1 ≠ .error (.unwinding object) := by
  unfold Act.attempt
  rcases act world with ⟨(_ | _) | _, later⟩ <;> simp

theorem spawn_apply [Host V σ] (act : Act V σ α) (world : World V σ) :
    spawn act world =
      match act.attempt world.started with
      | (.ok ended, later) => (.ok ended, world.rejoined (Slot.endStorage later).2)
      | (.error exit, later) => (.error exit, world.rejoined later) := by
  let thread : Act V σ (Except (Thrown V) α) := do
    let ended ← act.attempt
    quietly Slot.endStorage
    return ended
  change ((thread world.started).1, world.rejoined (thread world.started).2) = _
  rcases tried : act.attempt world.started with ⟨exit | ended, later⟩
  · have run : thread world.started = (.error exit, later) := by
      rw [show thread = act.attempt >>= _ from rfl, bind_error (by rw [tried]), tried]
    rw [run]
  · have run : thread world.started = (.ok ended, (Slot.endStorage later).2) := by
      rw [show thread = act.attempt >>= _ from rfl, bind_ok (by rw [tried]), tried]
      rfl
    rw [run]

structure Coupling [Host V σ] (range : Range V σ) (ι : Type) where
  Ties : ι → List (OpenScope V) → World V σ → World V σ → Prop
  step : ∀ {α : Type} {act : Quiet V σ α}, Primitive range act → ∀ {i held world world'},
    Ties i held world world' →
      (act world).1 = (act world').1 ∧ Ties i held (act world).2 (act world').2
  perm : ∀ {i held held' world world'}, held.Perm held' → Ties i held world world' →
    Ties i held' world world'
  unwound : ∀ {i held world world'}, Ties i held world world' →
    Ties i held world.unwound world'.unwound
  stopped : ∀ {i held world world'}, Ties i held world world' →
    Ties i held world.stopped world'.stopped
  enter : ∀ {i held world world'} (scope : Scope V), Ties i held world world' →
    (scope.enter world).1 = (scope.enter world').1 ∧
      Ties i ((scope.enter world).1 :: held) (scope.enter world).2 (scope.enter world').2
  leave : ∀ {i held world world'} (active : OpenScope V), Ties i (active :: held) world world' →
    Ties i held (active.leave world).2 (active.leave world').2
  Lends : ι → Key V → Token → Prop
  lends : ∀ {i held world world' key top}, Ties i held world world' →
    (world.thread.stack key).top? = some top → Lends i key top.owner
  restore : ∀ {i held world world' key owner}, range.slot key → Lends i key owner →
    Ties i held world world' → ∀ id value, Ties i held (Slot.restore key owner id value world).2
      (Slot.restore key owner id value world').2
  thread : ∀ {i held world world'}, Ties i held world world' →
    ∃ j, Ties j [] world.started world'.started ∧ ∀ {within later later'},
      Ties j within later later' → Ties i held (world.rejoined later) (world'.rejoined later') ∧
        Ties i held (world.rejoined (Slot.endStorage later).2)
          (world'.rejoined (Slot.endStorage later').2)

namespace Coupling

variable [Host V σ] {range : Range V σ} (coupling : Coupling range ι)

/-- Two runs end alike. What is left is what the value says, or nothing after an unwinding; a run that
is aborted stops anywhere. -/
def Ends (i : ι) (left : α → List (OpenScope V)) (more : List (OpenScope V))
    (run run' : Except (Exit V) α × World V σ) : Prop :=
  run.1 = run'.1 ∧ match run.1 with
    | .ok value => coupling.Ties i (left value ++ more) run.2 run'.2
    | .error (.unwinding _) => coupling.Ties i more run.2 run'.2
    | .error .aborted => ∃ rest, coupling.Ties i rest run.2 run'.2

/-- Whatever other scopes are open, two runs of `act` end alike. -/
def Agrees (held : List (OpenScope V)) (act : Act V σ α) (left : α → List (OpenScope V)) : Prop :=
  ∀ {i more world world'}, coupling.Ties i (held ++ more) world world' →
    coupling.Ends i left more (act world) (act world')

variable {coupling} {i : ι} {held more : List (OpenScope V)} {left : α → List (OpenScope V)}

theorem Ends.returned {act : Act V σ α} {world world' : World V σ} {value : α}
    (ends : coupling.Ends i left more (act world) (act world'))
    (returned : (act world).1 = .ok value) :
    (act world').1 = .ok value ∧
      coupling.Ties i (left value ++ more) (act world).2 (act world').2 := by
  obtain ⟨same, tied⟩ := ends
  rw [returned] at same tied
  exact ⟨same.symm, tied⟩

theorem Ends.unwinding {act : Act V σ α} {world world' : World V σ} {object : Thrown V}
    (ends : coupling.Ends i left more (act world) (act world'))
    (left : (act world).1 = .error (.unwinding object)) :
    (act world').1 = .error (.unwinding object) ∧
      coupling.Ties i more (act world).2 (act world').2 := by
  obtain ⟨same, tied⟩ := ends
  rw [left] at same tied
  exact ⟨same.symm, tied⟩

theorem Ends.aborted {act : Act V σ α} {world world' : World V σ}
    (ends : coupling.Ends i left more (act world) (act world'))
    (left : (act world).1 = .error .aborted) :
    (act world').1 = .error .aborted ∧ ∃ rest, coupling.Ties i rest (act world).2 (act world').2 := by
  obtain ⟨same, tied⟩ := ends
  rw [left] at same tied
  exact ⟨same.symm, tied⟩

theorem Ends.tied {act : Act V σ α} {world world' : World V σ}
    (ends : coupling.Ends i left more (act world) (act world')) :
    ∃ rest, coupling.Ties i rest (act world).2 (act world').2 := by
  rcases ended : (act world).1 with (object | _) | value
  · exact ⟨_, (ends.unwinding ended).2⟩
  · exact (ends.aborted ended).2
  · exact ⟨_, (ends.returned ended).2⟩

theorem routine {act : Quiet V σ α} (routine : Routine range act) {world world' : World V σ}
    (tied : coupling.Ties i held world world') :
    (act world).1 = (act world').1 ∧ coupling.Ties i held (act world).2 (act world').2 := by
  induction routine generalizing world world' with
  | step primitive => exact coupling.step primitive tied
  | still value => exact ⟨rfl, tied⟩
  | @follow _ _ act next _ _ first later =>
      obtain ⟨same, after⟩ := first tied
      have same' : (act >>= next) world' = next (act world).1 (act world').2 :=
        congrArg (next · (act world').2) same.symm
      rw [same']
      exact later (act world).1 ⟨world, rfl⟩ after

namespace Agrees

variable {act : Act V σ α}

theorem quiet {act : Quiet V σ α} (given : Routine range act) :
    coupling.Agrees held (quietly act) fun _ => held := fun tied =>
  ⟨congrArg Except.ok (routine given tied).1, (routine given tied).2⟩

theorem bind {middle : α → List (OpenScope V)} {left : β → List (OpenScope V)}
    {next : α → Act V σ β} (first : coupling.Agrees held act middle)
    (later : ∀ value, (∃ world, (act world).1 = .ok value) →
      coupling.Agrees (middle value) (next value) left) :
    coupling.Agrees held (act >>= next) left := by
  intro i more world world' tied
  have ends := first tied
  rcases ended : (act world).1 with (object | _) | value
  · obtain ⟨ended', after⟩ := ends.unwinding ended
    rw [bind_error ended, bind_error ended']
    exact ⟨rfl, after⟩
  · obtain ⟨ended', after⟩ := ends.aborted ended
    rw [bind_error ended, bind_error ended']
    exact ⟨rfl, after⟩
  · obtain ⟨ended', after⟩ := ends.returned ended
    rw [bind_ok ended, bind_ok ended']
    exact later value ⟨world, ended⟩ after

theorem attempt (body : coupling.Agrees held act left) :
    coupling.Agrees held act.attempt (Except.leaves left) := by
  intro i more world world' tied
  have ends := body tied
  unfold Act.attempt
  rcases first : act world with ⟨(object | _) | value, later⟩ <;>
    rcases second : act world' with ⟨ended', later'⟩ <;>
    rw [first, second] at ends <;> obtain ⟨same, after⟩ := ends <;> cases same
  · exact ⟨rfl, coupling.stopped after⟩
  · exact ⟨rfl, after⟩
  · exact ⟨rfl, after⟩

theorem cleanup {clean : Act V σ Unit} (body : coupling.Agrees held act left)
    (cleaning : coupling.Agrees more clean fun _ => []) :
    coupling.Agrees (held ++ more) (act.onUnwinding clean) fun value => left value ++ more := by
  intro i others world world' tied
  rw [List.append_assoc] at tied
  have ends := body tied
  rcases ended : (act world).1 with (object | _) | value
  · obtain ⟨ended', after⟩ := ends.unwinding ended
    have cleaned := cleaning after
    rw [onUnwinding_cleanup ended, onUnwinding_cleanup ended']
    rcases cleared : (clean (act world).2).1 with (second | _) | ⟨⟩
    · obtain ⟨cleared', last⟩ := cleaned.unwinding cleared
      rw [cleared']
      exact ⟨rfl, _, last⟩
    · obtain ⟨cleared', last⟩ := cleaned.aborted cleared
      rw [cleared']
      exact ⟨rfl, last⟩
    · obtain ⟨cleared', last⟩ := cleaned.returned cleared
      rw [cleared']
      exact ⟨rfl, last⟩
  · obtain ⟨ended', after⟩ := ends.aborted ended
    rw [onUnwinding_passed (by simp [ended]), onUnwinding_passed (by simp [ended']), Ends, ended,
      ended']
    exact ⟨rfl, after⟩
  · obtain ⟨ended', after⟩ := ends.returned ended
    rw [← List.append_assoc] at after
    rw [onUnwinding_passed (by simp [ended]), onUnwinding_passed (by simp [ended']), Ends, ended,
      ended']
    exact ⟨rfl, after⟩

theorem lend {key : Key V} {use : key.Value → Act V σ α} (within : range.slot key) (id : Nat)
    (uses : ∀ value, coupling.Agrees held (use value) left) :
    coupling.Agrees held (Slot.lend key id use) (Option.leaves held left) := by
  intro i more world world' tied
  have found := (routine (.valueFor within id) tied).1
  obtain ⟨outlines, -⟩ := coupling.step
    (.touch within (fun outline _ => outline) fun held => held) tied
  change (world.thread.stack key).valueFor id = (world'.thread.stack key).valueFor id at found
  change (world.thread.stack key).outline = (world'.thread.stack key).outline at outlines
  rcases held' : (world.thread.stack key).valueFor id with _ | value
  · rw [lendNothing_apply held', lendNothing_apply (found ▸ held')]
    exact ⟨rfl, tied⟩
  · obtain ⟨top, innermost⟩ := top_of_valueFor held'
    obtain ⟨top', innermost'⟩ := top_of_valueFor (found ▸ held')
    have owners : top'.owner = top.owner := by
      have heads := congrArg (·.head?.map Prod.fst) outlines
      simp only [Stack.outline, Stack.outlineOf, List.head?_map, Option.map_map] at heads
      rw [show (world.thread.stack key).frames.head? = some top from innermost,
        show (world'.thread.stack key).frames.head? = some top' from innermost'] at heads
      exact (Option.some.inj heads).symm
    have lendable := coupling.lends tied innermost
    have ends := uses value (routine (.takeFor within id) tied).2
    rw [lend_apply innermost held', lend_apply innermost' (found ▸ held'), map_apply, map_apply,
      ensuring_quietly_apply, ensuring_quietly_apply, owners]
    rcases ended : (use value (Slot.takeFor key id world).2).1 with (object | _) | answer
    · obtain ⟨ended', after⟩ := ends.unwinding ended
      rw [ended']
      exact ⟨rfl, coupling.restore within lendable after id value⟩
    · obtain ⟨ended', after⟩ := ends.aborted ended
      rw [ended']
      exact ⟨rfl, after⟩
    · obtain ⟨ended', after⟩ := ends.returned ended
      rw [ended']
      exact ⟨rfl, coupling.restore within lendable after id value⟩

theorem spawn (runs : coupling.Agrees [] act left) :
    coupling.Agrees held (spawn act) fun _ => held := by
  intro i more world world' tied
  obtain ⟨j, started, back⟩ := coupling.thread tied
  have ends := runs.attempt started
  rw [spawn_apply, spawn_apply]
  rcases first : act.attempt world.started with ⟨exit | ended, later⟩ <;>
    rcases second : act.attempt world'.started with ⟨ended', later'⟩ <;>
    rw [first, second] at ends <;> obtain ⟨same, after⟩ := ends <;> cases same
  · rcases exit with object | _
    · exact absurd (congrArg Prod.fst first) (attempt_stops object)
    · obtain ⟨rest, stopped⟩ := after
      exact ⟨rfl, held ++ more, (back stopped).1⟩
  · exact ⟨rfl, (back after).2⟩

end Agrees

end Coupling

/-- Two runs of a program end alike, if they start in related worlds. -/
theorem Program.agrees [Host V σ] {range : Range V σ} (coupling : Coupling range ι)
    {held : List (OpenScope V)} {act : Act V σ α} {left : α → List (OpenScope V)}
    (program : Program range held act left) : coupling.Agrees held act left := by
  -- each constructor has its own lemma; only the order of what is in hand is settled here
  induction program with
  | quiet routine => exact Coupling.Agrees.quiet routine
  | still value => exact fun tied => ⟨rfl, tied⟩
  | follow _ _ first later => exact Coupling.Agrees.bind first later
  | unwind object => exact fun tied => ⟨rfl, coupling.unwound tied⟩
  | attempt _ body => exact Coupling.Agrees.attempt body
  | cleanup _ _ body cleaning => exact Coupling.Agrees.cleanup body cleaning
  | enter scope =>
      intro i more world world' tied
      obtain ⟨same, after⟩ := coupling.enter scope tied
      exact ⟨congrArg Except.ok same, after⟩
  | leave active => exact fun tied => ⟨rfl, coupling.leave active tied⟩
  | lend within id _ uses => exact Coupling.Agrees.lend within id uses
  | spawn _ runs => exact Coupling.Agrees.spawn runs
  | perm _ given returned body =>
      intro i more world world' tied
      obtain ⟨same, after⟩ := body (coupling.perm (given.symm.append_right more) tied)
      refine ⟨same, ?_⟩
      split <;> rename_i ended <;> rw [ended] at after
      · exact coupling.perm ((returned _).append_right more) after
      · exact after
      · exact after

theorem Program.agrees_alone [Host V σ] {range : Range V σ} (coupling : Coupling range ι)
    {held : List (OpenScope V)} {act : Act V σ α} {left : α → List (OpenScope V)}
    (program : Program range held act left) {i : ι} {world world' : World V σ}
    (tied : coupling.Ties i held world world') : coupling.Ends i left [] (act world) (act world') :=
  program.agrees coupling (by rwa [List.append_nil])

/-- What holds on through every single step of one run. -/
structure Invariant [Host V σ] (range : Range V σ) (ι : Type) where
  Holds : ι → List (OpenScope V) → World V σ → Prop
  step : ∀ {α : Type} {act : Quiet V σ α}, Primitive range act → ∀ {i held world},
    Holds i held world → Holds i held (act world).2
  perm : ∀ {i held held' world}, held.Perm held' → Holds i held world → Holds i held' world
  unwound : ∀ {i held world}, Holds i held world → Holds i held world.unwound
  stopped : ∀ {i held world}, Holds i held world → Holds i held world.stopped
  enter : ∀ {i held world} (scope : Scope V), Holds i held world →
    Holds i ((scope.enter world).1 :: held) (scope.enter world).2
  leave : ∀ {i held world} (active : OpenScope V), Holds i (active :: held) world →
    Holds i held (active.leave world).2
  restore : ∀ {i held world key}, range.slot key → Holds i held world → ∀ owner id value,
    Holds i held (Slot.restore key owner id value world).2
  thread : ∀ {i held world}, Holds i held world →
    ∃ j, Holds j [] world.started ∧ ∀ {within later}, Holds j within later →
      Holds i held (world.rejoined later) ∧
        Holds i held (world.rejoined (Slot.endStorage later).2)

def Invariant.coupling [Host V σ] {range : Range V σ} (invariant : Invariant range ι) :
    Coupling range ι where
  Ties i held world world' := world = world' ∧ invariant.Holds i held world
  step primitive := by
    rintro i held world _ ⟨rfl, holds⟩
    exact ⟨rfl, rfl, invariant.step primitive holds⟩
  perm given := fun ⟨same, holds⟩ => ⟨same, invariant.perm given holds⟩
  unwound := fun ⟨same, holds⟩ => ⟨congrArg _ same, invariant.unwound holds⟩
  stopped := fun ⟨same, holds⟩ => ⟨congrArg _ same, invariant.stopped holds⟩
  enter scope := by
    rintro ⟨rfl, holds⟩
    exact ⟨rfl, rfl, invariant.enter scope holds⟩
  leave active := by
    rintro ⟨rfl, holds⟩
    exact ⟨rfl, invariant.leave active holds⟩
  Lends _ _ _ := True
  lends _ _ := trivial
  restore within _ := by
    rintro ⟨rfl, holds⟩ id value
    exact ⟨rfl, invariant.restore within holds _ id value⟩
  thread := by
    rintro i held world _ ⟨rfl, holds⟩
    obtain ⟨j, started, back⟩ := invariant.thread holds
    refine ⟨j, ⟨rfl, started⟩, ?_⟩
    rintro within later _ ⟨rfl, ended⟩
    exact ⟨⟨rfl, (back ended).1⟩, rfl, (back ended).2⟩

section Keeping

variable [Host V σ] {range : Range V σ} (invariant : Invariant range ι) {i : ι}
  {held more : List (OpenScope V)} {act : Act V σ α} {left : α → List (OpenScope V)}
  {world : World V σ} (program : Program range held act left)
  (holds : invariant.Holds i (held ++ more) world)
include program holds

theorem Program.keeps_returning {value : α} (returned : (act world).1 = .ok value) :
    invariant.Holds i (left value ++ more) (act world).2 :=
  ((program.agrees invariant.coupling ⟨rfl, holds⟩).returned returned).2.2

theorem Program.keeps_unwinding {object : Thrown V}
    (unwound : (act world).1 = .error (.unwinding object)) :
    invariant.Holds i more (act world).2 :=
  ((program.agrees invariant.coupling ⟨rfl, holds⟩).unwinding unwound).2.2

end Keeping

end FaultRelay

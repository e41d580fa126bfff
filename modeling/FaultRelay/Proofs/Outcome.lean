import FaultRelay.Proofs.ThreadStacks
import FaultRelay.Scope

/-! How operations end that may unwind: what each way of combining them answers and leaves, and what
lending a value, recording one and running with an open scope amount to. -/
namespace FaultRelay

variable {V : Vocabulary} {σ : Type}

def World.stopped (world : World V σ) : World V σ :=
  { world with thread.unwindings := world.thread.unwindings - 1 }

theorem quietly_bind {α β : Type} (act : Quiet V σ α) (next : α → Quiet V σ β) :
    quietly (act >>= next) = quietly act >>= fun value => quietly (next value) := rfl

section Outcomes

variable {α β : Type} {world : World V σ} {act : Act V σ α}

theorem bind_ok {next : α → Act V σ β} {value : α}
    (returned : (act world).1 = .ok value) :
    (act >>= next) world = next value (act world).2 := by
  rcases result : act world with ⟨_ | _, later⟩ <;> rw [result] at returned <;> cases returned
  simp only [bind, ExceptT.bind, ExceptT.mk, StateT.bind, result, ExceptT.bindCont]

theorem bind_error {next : α → Act V σ β} {exit : Exit V}
    (left : (act world).1 = .error exit) : (act >>= next) world = (.error exit, (act world).2) := by
  rcases result : act world with ⟨_ | _, later⟩ <;> rw [result] at left <;> cases left
  simp only [bind, ExceptT.bind, ExceptT.mk, StateT.bind, result, ExceptT.bindCont]
  rfl

theorem bind_run_congr {act' : Act V σ α} (same : act world = act' world)
    (next : α → Act V σ β) : (act >>= next) world = (act' >>= next) world := by
  change ExceptT.bindCont next (act world).1 (act world).2 =
    ExceptT.bindCont next (act' world).1 (act' world).2
  rw [same]

theorem map_apply (change : α → β) :
    (change <$> act) world = (change <$> (act world).1, (act world).2) := by
  rcases result : act world with ⟨_ | _, later⟩ <;>
    simp only [Functor.map, ExceptT.map, ExceptT.mk, StateT.bind, bind, result] <;> rfl

theorem attempt_finished (finished : (act world).1 ≠ .error .aborted) :
    ∃ ended, (act.attempt world).1 = .ok ended := by
  unfold Act.attempt
  rcases result : act world with ⟨(object | _) | value, later⟩
  · exact ⟨_, rfl⟩
  · exact absurd (by rw [result]) finished
  · exact ⟨_, rfl⟩

theorem attempt_unwound {object : Thrown V}
    (unwound : (act world).1 = .error (.unwinding object)) :
    act.attempt world = (.ok (.error object), (act world).2.stopped) := by
  unfold Act.attempt
  rcases result : act world with ⟨_ | _, later⟩ <;> rw [result] at unwound <;> cases unwound
  rfl

theorem attempt_aborted (aborted : (act world).1 = .error .aborted) :
    (act.attempt world).1 = .error .aborted := by
  unfold Act.attempt
  rcases result : act world with ⟨_ | _, later⟩ <;> rw [result] at aborted <;> cases aborted
  rfl

theorem onUnwinding_passed {clean : Act V σ Unit}
    (intact : ∀ object, (act world).1 ≠ .error (.unwinding object)) :
    act.onUnwinding clean world = act world := by
  unfold Act.onUnwinding
  rcases result : act world with ⟨(object | _) | value, later⟩
  · exact absurd (by rw [result]) (intact object)
  · rfl
  · rfl

theorem onUnwinding_cleanup {clean : Act V σ Unit} {object : Thrown V}
    (unwound : (act world).1 = .error (.unwinding object)) :
    act.onUnwinding clean world =
      ((match (clean (act world).2).1 with
        | .ok () => .error (.unwinding object)
        | .error _ => .error .aborted), (clean (act world).2).2) := by
  unfold Act.onUnwinding
  rcases result : act world with ⟨_ | _, later⟩ <;> rw [result] at unwound <;> cases unwound
  simp only
  rcases clean later with ⟨_ | _, last⟩ <;> rfl

theorem ensuring_quietly_apply (after : Quiet V σ Unit) :
    act.ensuring (quietly after) world =
      match (act world).1 with
      | .error .aborted => (.error .aborted, (act world).2)
      | result => (result, (after (act world).2).2) := by
  rw [Act.ensuring_apply]
  rcases act world with ⟨(object | _) | value, later⟩ <;> rfl

end Outcomes

section Lending

variable [Host V σ] {α : Type} {world : World V σ} {key : Key V} {id : Nat}

theorem top_of_valueFor {β : Type} {stack : Stack β} {value : β}
    (held : stack.valueFor id = some value) : ∃ top, stack.top? = some top := by
  obtain ⟨top, innermost, _⟩ := Option.bind_eq_some_iff.1 held
  exact ⟨top, innermost⟩

theorem lend_apply {use : key.Value → Act V σ α} {top : Frame key.Value}
    {value : key.Value} (innermost : (world.thread.stack key).top? = some top)
    (held : (world.thread.stack key).valueFor id = some value) :
    Slot.lend key id use world =
      (some <$> (use value).ensuring (quietly (Slot.restore key top.owner id value)))
        (Slot.takeFor key id world).2 := by
  have read : (quietly (Slot.stack key) : Act V σ (Stack key.Value)) world =
      (.ok (world.thread.stack key), world) := rfl
  have taken : (quietly (Slot.takeFor key id) : Act V σ (Option key.Value)) world =
      (.ok (some value), (Slot.takeFor key id world).2) := by
    have answer : (Slot.takeFor key id world).1 = some value := held
    rw [← answer]
    rfl
  unfold Slot.lend
  rw [bind_ok (by rw [read]), read]
  simp only [innermost]
  rw [bind_ok (by rw [taken]), taken]

theorem lendNothing_apply {use : key.Value → Act V σ α}
    (absent : (world.thread.stack key).valueFor id = none) :
    Slot.lend key id use world = (.ok none, world) := by
  have read : (quietly (Slot.stack key) : Act V σ (Stack key.Value)) world =
      (.ok (world.thread.stack key), world) := rfl
  have taken : (quietly (Slot.takeFor key id) : Act V σ (Option key.Value)) world =
      (.ok none, world) := by
    have same := takeFor_absent absent
    change (Except.ok (Slot.takeFor key id world).1, (Slot.takeFor key id world).2) = _
    rw [same]
  unfold Slot.lend
  rw [bind_ok (by rw [read]), read]
  simp only
  cases (world.thread.stack key).top? with
  | none => rfl
  | some top =>
      simp only
      rw [bind_ok (by rw [taken]), taken]
      rfl

/-- A value that is given back at once is back where it was. -/
theorem restore_taken {top : Frame key.Value} {value : key.Value}
    (innermost : (world.thread.stack key).top? = some top)
    (held : (world.thread.stack key).valueFor id = some value) :
    Slot.restore key top.owner id value (Slot.takeFor key id world).2 = ((), world) := by
  obtain ⟨below, shape⟩ : ∃ below, world.thread.stack key = ⟨top :: below⟩ := by
    rcases stack : world.thread.stack key with ⟨_ | ⟨first, below⟩⟩ <;>
      rw [stack] at innermost <;> cases innermost
    exact ⟨below, rfl⟩
  have inside : top.held = some (id, value) := by
    rw [shape] at held
    exact Frame.held_of_valueFor held
  have alive : world.thread.store ≠ none := Thread.alive_of_frames (by rw [shape]; simp)
  have emptied : top.without id = top.cleared := by
    simp [Frame.without, Frame.holds, Frame.id, inside]
  have taken : (Slot.takeFor key id world).2 =
      { world with thread := world.thread.setStack key ⟨top.cleared :: below⟩ } := by
    rw [Slot.takeFor, Slot.onStack_apply, shape, ← emptied]
    rfl
  have back : Stack.onFrame top.owner (·.put id value) ⟨top.cleared :: below⟩ =
      world.thread.stack key := by
    have refilled := top.put_without id value inside
    rw [emptied] at refilled
    simp [Stack.onFrame, Stack.editFirst, Frame.cleared, shape] at refilled ⊢
    exact refilled
  have now : (world.thread.setStack key ⟨top.cleared :: below⟩).stack key =
      ⟨top.cleared :: below⟩ := Thread.stack_setStack alive key _
  have found : Stack.frameOf? ⟨top.cleared :: below⟩ top.owner = some top.cleared := by
    simp [Stack.frameOf?, Frame.cleared]
  have returned : (world.thread.setStack key ⟨top.cleared :: below⟩).setStack key
      (world.thread.stack key) = world.thread := by
    rw [Thread.setStack_setStack _ _ _ (by rw [shape]; rfl), Thread.setStack_self]
  have read : Slot.stack key (Slot.takeFor key id world).2 =
      (⟨top.cleared :: below⟩, (Slot.takeFor key id world).2) := by
    rw [taken]
    change ((world.thread.setStack key ⟨top.cleared :: below⟩).stack key, _) = _
    rw [now]
  unfold Slot.restore
  simp only [bind, StateT.bind, read]
  rw [found]
  change Slot.setStack key (Stack.onFrame top.owner (·.put id value) ⟨top.cleared :: below⟩) _ = _
  rw [back, taken]
  exact congrArg (fun thread => ((), { world with thread := thread })) returned

theorem lend_reading {use : key.Value → Act V σ α} {value : key.Value} {answer : α}
    (held : (world.thread.stack key).valueFor id = some value)
    (returned : use value (Slot.takeFor key id world).2 =
      (.ok answer, (Slot.takeFor key id world).2)) :
    Slot.lend key id use world = (.ok (some answer), world) := by
  obtain ⟨top, innermost⟩ := top_of_valueFor held
  rw [lend_apply innermost held, map_apply, ensuring_quietly_apply, returned]
  change (_, (Slot.restore key top.owner id value (Slot.takeFor key id world).2).2) = _
  rw [restore_taken innermost held]
  rfl

end Lending

section Recording

/-- The settings in force, as they are or as the environment would decide them. -/
def World.settings (world : World V σ) : Settings :=
  world.process.settings.getD (.ofVariable world.process.environment)

theorem inForce_apply (world : World V σ) :
    Settings.inForce world =
      (world.settings, { world with process.settings := some world.settings }) := by
  obtain ⟨⟨drawn, settings, environment⟩, thread, host⟩ := world
  cases settings <;> rfl

theorem tallying_apply (world : World V σ) :
    tallying world = (world.settings.diagnostics && 0 < world.thread.tallying,
      { world with process.settings := some world.settings }) := by
  obtain ⟨⟨drawn, settings, environment⟩, thread, host⟩ := world
  cases settings <;> rfl

def World.strayed [Observer σ] (key : Key V) (id : FailureId) (world : World V σ) : World V σ :=
  { (emit (.strayed key.name id) world).2 with process.settings := some world.settings }

theorem noteStray_apply [Observer σ] (key : Key V) (id : FailureId) (world : World V σ) :
    noteStray key id world = ((),
      if world.settings.diagnostics && 0 < world.thread.tallying then
        (Slot.editTop .tally (countStray key.name id.raw) (world.strayed key id)).2
      else world.strayed key id) := by
  have asked : tallying (emit (V := V) (.strayed key.name id) world).2 =
      (world.settings.diagnostics && 0 < world.thread.tallying, world.strayed key id) :=
    tallying_apply _
  unfold noteStray
  change (tallying >>= fun counts => if counts then _ else _ : Quiet V σ Unit)
    (emit (.strayed key.name id) world).2 = _
  simp only [bind, StateT.bind, asked]
  split <;> rfl

theorem record_apply [Host V σ] (key : Key V) (value : key.Value) (id : FailureId)
    (world : World V σ) :
    record key value id world =
      match Slot.put key id.raw value world with
      | (.stored none, later) => (true, later)
      | (.stored (some previous), later) => (true, (release key previous later).2)
      | (.rejected refused, later) => (false, (noteStray key id (release key refused later).2).2) := by
  unfold record recordEnding
  simp only [bind, StateT.bind]
  rcases Slot.put key id.raw value world with ⟨(_ | previous) | refused, later⟩ <;> rfl

theorem put_closed {key : Key V} {world : World V σ} (closed : world.thread.stack key = .empty)
    (id : Nat) (value : key.Value) : Slot.put key id value world = (.rejected value, world) := by
  have same := Thread.setStack_self world.thread key
  rw [closed] at same
  rw [Slot.put, Slot.onStack_apply, closed, Stack.put_empty, same]

theorem put_open {key : Key V} {world : World V σ} {top : Frame key.Value}
    {below : List (Frame key.Value)} (opened : world.thread.stack key = ⟨top :: below⟩) (id : Nat)
    (value : key.Value) :
    Slot.put key id value world = (.stored top.value?, { world with
      thread := world.thread.setStack key ⟨top.put id value :: below⟩ }) := by
  rw [Slot.put, Slot.onStack_apply, opened]
  rfl

end Recording

theorem during_apply [Host V σ] {α : Type} (scope : Scope V) (body : OpenScope V → Act V σ α)
    (world : World V σ) :
    scope.during body world =
      match (body (scope.enter world).1 (scope.enter world).2).1 with
      | .error .aborted => (.error .aborted, (body (scope.enter world).1 (scope.enter world).2).2)
      | result => (result, ((scope.enter world).1.leave
          (body (scope.enter world).1 (scope.enter world).2).2).2) := by
  have entered : (quietly scope.enter : Act V σ (OpenScope V)) world =
      (.ok (scope.enter world).1, (scope.enter world).2) := rfl
  unfold Scope.during
  rw [bind_ok (by rw [entered])]
  exact ensuring_quietly_apply _

theorem during_result [Host V σ] {α : Type} (scope : Scope V) (body : OpenScope V → Act V σ α)
    (world : World V σ) :
    (scope.during body world).1 = (body (scope.enter world).1 (scope.enter world).2).1 := by
  rw [during_apply]
  rcases (body (scope.enter world).1 (scope.enter world).2).1 with (object | _) | value <;> rfl

end FaultRelay

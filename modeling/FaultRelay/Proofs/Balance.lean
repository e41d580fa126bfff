import FaultRelay.Handler.Block
import FaultRelay.Proofs.Alike
import FaultRelay.Proofs.Outline
import FaultRelay.Proofs.Representation

/-! Operations that close the scopes they open, and no others. The tokens of a thread tell the scopes
apart: no frame belongs to a token that was not drawn yet, so that a scope that is entered gets frames
of its own. -/
namespace FaultRelay

variable {V : Vocabulary} {σ α β : Type}

theorem Stack.outline_empty_iff {α : Type} {stack : Stack α} :
    stack.outline = (empty : Stack α).outline ↔ stack = .empty := by
  obtain ⟨frames⟩ := stack
  simp [outline, outlineOf, empty]

/-- No frame belongs to a token that the thread has yet to draw. -/
def Thread.Fresh (thread : Thread V) : Prop :=
  ∀ key, ∀ entry ∈ (thread.stack key).outline, entry.1.Within thread.lastToken

theorem Thread.fresh_fresh : (Thread.fresh V).Fresh := fun _ _ listed => by cases listed

theorem Represents.thread_fresh {mounts : List (Mount V)} {scene : Scene V σ}
    (represents : Represents mounts scene) : scene.world.thread.Fresh := by
  intro key entry listed n numbered
  by_cases gone : scene.world.thread.store = none
  · rw [Thread.stack_gone gone] at listed
    cases listed
  · rw [represents.framed gone] at listed
    obtain ⟨mount, kept, rfl⟩ := List.mem_map.1 listed
    have drawn := represents.drawn mount (List.mem_filter.1 kept).1
    rwa [show mount.owner = .numbered n from numbered] at drawn

structure Thread.SameShape (before after : Thread V) : Prop where
  outline : ∀ key, (after.stack key).outline = (before.stack key).outline
  drawn : before.lastToken ≤ after.lastToken

namespace Thread

variable {first second third : Thread V}

theorem SameShape.refl (thread : Thread V) : SameShape thread thread := ⟨fun _ => rfl, le_refl _⟩

theorem SameShape.trans (before : SameShape first second) (after : SameShape second third) :
    SameShape first third :=
  ⟨fun key => (after.outline key).trans (before.outline key), before.drawn.trans after.drawn⟩

theorem SameShape.fresh (same : SameShape first second) (fresh : first.Fresh) : second.Fresh := by
  intro key entry listed n numbered
  rw [same.outline key] at listed
  exact (fresh key entry listed n numbered).trans same.drawn

theorem SameShape.setStack (thread : Thread V) {key : Key V} {stack : Stack key.Value}
    (outline : stack.outline = (thread.stack key).outline) :
    SameShape thread (thread.setStack key stack) := by
  refine ⟨fun other => ?_, le_refl _⟩
  by_cases gone : thread.store = none
  · rw [setStack_gone gone]
  · by_cases here : other = key
    · subst here
      rw [stack_setStack gone, outline]
    · rw [stack_setStack_other _ _ here]

end Thread

def Quiet.Level (act : Quiet V σ α) : Prop :=
  ∀ world : World V σ, world.thread.SameShape (act world).2.thread

/-- Whenever `act` returns, it has closed the scopes it opened, and no others. -/
def Act.Level (act : Act V σ α) : Prop :=
  ∀ world : World V σ, world.thread.Fresh → ∀ value, (act world).1 = .ok value →
    world.thread.SameShape (act world).2.thread

theorem FailureId.upcoming_thread (world : World V σ) :
    (FailureId.upcoming world).2.thread = world.thread := by
  rcases promised : world.thread.reserved with _ | id
  · rw [FailureId.upcoming_unreserved promised]
    rfl
  · rw [FailureId.upcoming_reserved promised]

namespace Quiet.Level

theorem still {act : Quiet V σ α} (unmoved : ∀ world, (act world).2.thread = world.thread) :
    act.Level := fun world => by
  rw [unmoved]
  exact .refl _

theorem seq {act : Quiet V σ α} {next : α → Quiet V σ β} (first : act.Level)
    (later : ∀ value, (next value).Level) : (act >>= next).Level :=
  fun world => (first world).trans (later _ _)

theorem mint : (FailureId.mint : Quiet V σ FailureId).Level := by
  intro world
  have minted : (FailureId.mint world).2.thread =
      { world.thread with reserved := none, current := some (FailureId.upcoming world).1 } := by
    rw [FailureId.mint_apply, ← FailureId.upcoming_thread world]
  rw [minted]
  exact ⟨fun _ => rfl, le_refl _⟩

theorem onStack {key : Key V} {change : Stack key.Value → β × Stack key.Value}
    (same : ∀ stack, (change stack).2.outline = stack.outline) :
    (Slot.onStack key change : Quiet V σ β).Level :=
  fun world => .setStack world.thread (same _)

theorem takeFor (key : Key V) (id : Nat) : (Slot.takeFor key id : Quiet V σ _).Level :=
  onStack (Stack.outline_takeFor id)

variable [Discreet V σ]

theorem noteStray (key : Key V) (id : FailureId) : (noteStray key id : Quiet V σ Unit).Level := by
  refine seq (fun world => ?_) fun _ => seq (fun world => ?_) fun counts => ?_
  · exact .refl world.thread
  · rw [tallying_apply]
    exact .refl world.thread
  · cases counts with
    | false => exact fun world => .refl world.thread
    | true =>
        intro world
        refine .setStack world.thread (Stack.outline_onTop (fun frame => ?_) _)
        rfl

theorem release (key : Key V) (value : key.Value) : (release key value : Quiet V σ Unit).Level := by
  rw [release_inert]
  exact still fun _ => rfl

theorem record (key : Key V) (value : key.Value) (id : FailureId) :
    (record key value id : Quiet V σ Bool).Level := by
  refine seq (onStack (Stack.outline_put id.raw value)) fun stored => ?_
  cases stored with
  | stored previous =>
      cases previous with
      | none => exact still fun _ => rfl
      | some value => exact seq (release key value) fun _ => still fun _ => rfl
  | rejected value =>
      exact seq (release key value) fun _ => seq (noteStray key id) fun _ => still fun _ => rfl

theorem recordAll (payloads : List (Payload V)) (id : FailureId) :
    (recordAll payloads id : Quiet V σ Unit).Level := by
  induction payloads with
  | nil => exact still fun _ => rfl
  | cons payload rest ih =>
      exact seq (fun world => record payload.key payload.value id world) fun _ => ih

theorem newFailure (payloads : List (Payload V)) :
    (newFailure payloads : Quiet V σ FailureId).Level :=
  seq mint fun id => seq (recordAll payloads id) fun _ => still fun _ => rfl

end Quiet.Level

namespace Act.Level

theorem quietly {act : Quiet V σ α} (level : act.Level) : Act.Level (quietly act : Act V σ α) :=
  fun world _ _ _ => level world

theorem pure (value : α) : Act.Level (pure value : Act V σ α) := fun _ _ _ _ => .refl _

theorem unwind (object : Thrown V) : Act.Level (Act.unwind object : Act V σ α) :=
  fun _ _ _ returned => by cases returned

theorem bind {act : Act V σ α} {next : α → Act V σ β} (first : Act.Level act)
    (later : ∀ value, Act.Level (next value)) : Act.Level (act >>= next : Act V σ β) := by
  intro world fresh value returned
  rcases ended : (act world).1 with exit | middle
  · rw [bind_error ended] at returned
    cases returned
  · rw [bind_ok ended] at returned ⊢
    have shape := first world fresh middle ended
    exact shape.trans (later middle _ (shape.fresh fresh) value returned)

end Act.Level

section Entering

variable [Host V σ]

theorem Thread.Fresh.within {thread : Thread V} (fresh : thread.Fresh) {key : Key V} :
    ∀ frame ∈ (thread.stack key).frames, frame.owner.Within thread.lastToken :=
  fun frame listed => fresh key (frame.owner, frame.refs) (List.mem_map_of_mem listed)

/-- The scope that was entered has the innermost frame of each of its types for itself. -/
theorem frames_enter (scope : Scope V) {world : World V σ} (fresh : world.thread.Fresh)
    (alive : world.thread.store ≠ none) (key : Key V) :
    ((scope.enter world).2.thread.stack key).frames =
      if key ∈ scope.interest.keys then
        .fresh (.numbered (world.thread.lastToken + 1)) :: (world.thread.stack key).frames
      else (world.thread.stack key).frames := by
  rw [stack_enter scope alive]
  split
  · rename_i opened
    rcases stack : world.thread.stack key with ⟨_ | ⟨top, below⟩⟩
    · rfl
    · have within := fresh.within top (by rw [stack]; exact List.mem_cons_self)
      have other : top.owner ≠ .numbered (world.thread.lastToken + 1) := fun same => by
        have bound := within _ same
        omega
      simp only [Stack.openFor, Stack.openFrames, if_neg other]
  · rfl

theorem outline_enter (scope : Scope V) {world : World V σ} (fresh : world.thread.Fresh)
    (alive : world.thread.store ≠ none) (key : Key V) :
    ((scope.enter world).2.thread.stack key).outline =
      if key ∈ scope.interest.keys then
        (.numbered (world.thread.lastToken + 1), 1) :: (world.thread.stack key).outline
      else (world.thread.stack key).outline := by
  rw [Stack.outline, frames_enter scope fresh alive]
  split <;> rfl

theorem fresh_enter (scope : Scope V) {world : World V σ} (fresh : world.thread.Fresh) :
    (scope.enter world).2.thread.Fresh := by
  intro key entry listed n numbered
  rw [enter_lastToken]
  by_cases gone : world.thread.store = none
  · rw [Thread.stack_gone ((enter_gone scope world).2 gone)] at listed
    cases listed
  · rw [outline_enter scope fresh gone] at listed
    split at listed
    · rcases List.mem_cons.1 listed with rfl | old
      · cases numbered
        exact le_refl _
      · exact (fresh key entry old n numbered).trans (Nat.le_succ _)
    · exact (fresh key entry listed n numbered).trans (Nat.le_succ _)

end Entering

theorem Act.Level.during [Discreet V σ] (scope : Scope V) {body : OpenScope V → Act V σ α}
    (closes : ∀ active, Act.Level (body active)) : Act.Level (scope.during body) := by
  intro world fresh value returned
  rw [during_result] at returned
  have shape := closes _ _ (fresh_enter scope fresh) value returned
  have left : (scope.during body world).2 = ((scope.enter world).1.leave
      (body (scope.enter world).1 (scope.enter world).2).2).2 := by
    rw [during_apply, returned]
  have token : (scope.enter world).1.token = .numbered (world.thread.lastToken + 1) := by
    rw [enter_apply]
  have listed : (scope.enter world).1.interest = scope.interest := by rw [enter_apply]
  have drawn : world.thread.lastToken ≤ (scope.enter world).2.thread.lastToken := by
    rw [enter_lastToken]
    exact Nat.le_succ _
  rw [left]
  refine ⟨fun key => ?_, ?_⟩
  · have kept := shape.outline key
    rw [stack_leave, token, listed]
    by_cases gone : world.thread.store = none
    · rw [Thread.stack_gone ((enter_gone scope world).2 gone), Stack.outline_empty_iff] at kept
      rw [kept, Thread.stack_gone gone, Stack.close_empty, ite_self]
    · rw [outline_enter scope fresh gone] at kept
      split
      · rename_i open'
        rw [if_pos open'] at kept
        have apart : ∀ entry ∈ ([] : List (Token × Nat)),
            entry.1 ≠ .numbered (world.thread.lastToken + 1) := by simp
        exact (Stack.outline_close apart kept).1
      · rename_i closed
        rwa [if_neg closed] at kept
  · rw [leave_thread]
    exact drawn.trans (shape.drawn.trans (Thread.closeAll_lastToken _ _ _).ge)

namespace Act.Level

variable {ρ : Type} [Discreet V σ]

theorem dispatchFrom {case : Case V} {handlers : List (Handler V σ ρ)}
    (accepts : ∀ handler ∈ handlers, Act.Level (handler.accepts case))
    (answers : ∀ handler ∈ handlers, Act.Level (handler.answer? case)) (index : Nat) :
    Act.Level (dispatchFrom case index handlers) := by
  induction handlers generalizing index with
  | nil => exact bind (quietly fun world => .refl world.thread) fun _ => pure _
  | cons handler rest ih =>
      obtain ⟨asked, others⟩ := List.forall_mem_cons.1 accepts
      obtain ⟨answered, later⟩ := List.forall_mem_cons.1 answers
      refine bind asked fun accepted => ?_
      cases accepted with
      | false => exact ih others later (index + 1)
      | true =>
          refine bind (quietly fun world => .refl world.thread) fun _ =>
            bind answered fun answer => ?_
          cases answer with
          | some value => exact pure _
          | none => exact unwind _

theorem handleSome {body : Act V σ (Except FailureId α)} {chain : Chain V σ (Except FailureId α)}
    (runs : Act.Level body) (handles : ∀ id, Act.Level (chain.dispatch id)) :
    Act.Level (handleSome body chain) := by
  refine during _ fun _ => bind runs fun ended => ?_
  cases ended with
  | ok value => exact pure _
  | error id =>
      refine bind (handles id) fun outcome => ?_
      cases outcome with
      | handled value => exact pure value
      | unmatched id => exact pure _

end Act.Level

end FaultRelay

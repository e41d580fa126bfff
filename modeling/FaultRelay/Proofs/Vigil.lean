import FaultRelay.Proofs.Allocation
import FaultRelay.Proofs.FollowingCode
import FaultRelay.Proofs.GuardTarget

/-! Guards over a whole run. A payload can be made together with its guard or by a callback once the
guard fires. The callback has its own way to find out that its type is not open, and what is told and
counted then must be what recording would have told and counted. A run may do anything between the
making of a guard and its end, so a guard is known to it by a number only; at every moment the two
ways are compared by the world they have come to. -/
namespace FaultRelay

variable {V : Vocabulary} {σ α β : Type}

def Payload.Inert (σ : Type) [Host V σ] (payload : Payload V) : Prop :=
  release payload.key payload.value = (pure () : Quiet V σ Unit)

inductive Manner where
  | prepared
  | deferred

def Manner.context (payload : Payload V) : Manner → Context V (Deferred V σ)
  | prepared => .prepared [payload]
  | deferred => .deferred payload.key (pure payload.value)

namespace Guard

variable [Host V σ]

abbrev quit (guard : Guard V (Deferred V σ)) : Act V σ Unit := guard.drop fun _ code => code

variable {payload : Payload V} {baseline : Option FailureId} {wasUnwinding : Bool}

theorem record_unheard (inert : payload.Inert σ) {id : FailureId} {world : World V σ}
    (closed : (world.thread.stack payload.key).isOpen = false) :
    (record payload.key payload.value id world).2 = (noteStray payload.key id world).2 := by
  have empty : world.thread.stack payload.key = .empty := by
    rcases frames : world.thread.stack payload.key with ⟨_ | ⟨top, below⟩⟩
    · rfl
    · rw [frames] at closed
      cases closed
  rw [record_apply, put_closed empty]
  change (noteStray payload.key id (release payload.key payload.value world).2).2 = _
  rw [inert]
  rfl

/-- It makes no difference how the payload comes about: where its type is open it is recorded, and
elsewhere nothing but a stray is left of it. -/
theorem fire_context (inert : payload.Inert σ) (manner : Manner) (id : FailureId)
    (world : World V σ) :
    fire (fun _ (code : Deferred V σ _) => code) (manner.context payload) id world =
      (.ok (), (record payload.key payload.value id world).2) := by
  cases manner with
  | prepared => rfl
  | deferred =>
      rw [Manner.context, fire_deferred]
      split
      · rfl
      · rename_i closed
        rw [record_unheard inert (Bool.not_eq_true _ ▸ closed)]

theorem dismiss_context (inert : payload.Inert σ) (manner : Manner) (world : World V σ) :
    dismiss (⟨manner.context payload, baseline, wasUnwinding⟩ : Guard V (Deferred V σ)) world =
      ((), world) := by
  cases manner with
  | prepared =>
      change (releaseAll [] (release payload.key payload.value world).2) = _
      rw [inert]
      rfl
  | deferred => rfl

theorem quit_apply (guard : Guard V (Deferred V σ)) (world : World V σ) :
    guard.quit world =
      match (guard.target world).1 with
      | some id => fire (fun _ code => code) guard.context id (guard.target world).2
      | none => (.ok (), (guard.dismiss (guard.target world).2).2) := by
  have asked : (quietly guard.target : Act V σ (Option FailureId)) world =
      (.ok (guard.target world).1, (guard.target world).2) := rfl
  unfold quit drop
  rw [bind_ok (by rw [asked]), asked]
  cases (guard.target world).1 <;> rfl

omit [Host V σ] in
theorem target_congr {guard other : Guard V (Deferred V σ)} (baseline : guard.baseline = other.baseline)
    (wasUnwinding : guard.wasUnwinding = other.wasUnwinding) :
    (guard.target : Quiet V σ (Option FailureId)) = other.target := by
  funext world
  rw [target_apply, target_apply, baseline, wasUnwinding]

theorem quit_context (inert : payload.Inert σ) (manner manner' : Manner) :
    (⟨manner.context payload, baseline, wasUnwinding⟩ : Guard V (Deferred V σ)).quit =
      (⟨manner'.context payload, baseline, wasUnwinding⟩ : Guard V (Deferred V σ)).quit := by
  funext world
  have same : (⟨manner.context payload, baseline, wasUnwinding⟩ : Guard V (Deferred V σ)).target
      world = (⟨manner'.context payload, baseline, wasUnwinding⟩ : Guard V (Deferred V σ)).target
        world := congrFun (target_congr rfl rfl) world
  rw [quit_apply, quit_apply, same]
  rcases Guard.target _ world with ⟨_ | id, later⟩
  · simp only [dismiss_context inert]
  · exact (fire_context inert manner id later).trans (fire_context inert manner' id later).symm

end Guard

/-- What is left to do of a run with guards. Its guards are numbered in the order in which they are
made, and it knows them by their numbers. -/
inductive Vigil (V : Vocabulary) (σ : Type) [Host V σ] (α : Type) : Type 1
  | done (result : α)
  /-- Anything at all, by whatever thread. The run is told how it ended. -/
  | act {β : Type} (act : Act V σ β) (next : Except (Exit V) β → Vigil V σ α)
  | watch (payload : Payload V) (inert : payload.Inert σ) (next : Nat → Vigil V σ α)
  | arm (context : Context V (Deferred V σ)) (next : Nat → Vigil V σ α)
  | form (n : Nat) (next : Option String → Vigil V σ α)
  | drop (n : Nat) (next : Except (Exit V) Unit → Vigil V σ α)
  | dismiss (n : Nat) (next : Vigil V σ α)

structure Moment (V : Vocabulary) (σ : Type) [Host V σ] (α : Type) where
  left : Vigil V σ α
  /-- How many guards were made. -/
  made : Nat
  guards : Nat → Option (Guard V (Deferred V σ))
  world : World V σ

abbrev Manners (V : Vocabulary) (σ : Type) := Nat → Payload V → Context V (Deferred V σ)

namespace Moment

variable [Host V σ]

def start (left : Vigil V σ α) (world : World V σ) : Moment V σ α := ⟨left, 0, fun _ => none, world⟩

def keep (moment : Moment V σ α) (context : Context V (Deferred V σ)) (next : Nat → Vigil V σ α) :
    Moment V σ α where
  left := next moment.made
  made := moment.made + 1
  guards := Function.update moment.guards moment.made (some (Guard.arm context moment.world).1)
  world := (Guard.arm context moment.world).2

def part (moment : Moment V σ α) (n : Nat) (left : Vigil V σ α) (world : World V σ) :
    Moment V σ α where
  left := left
  made := moment.made
  guards := Function.update moment.guards n none
  world := world

def next (manners : Manners V σ) (moment : Moment V σ α) : Moment V σ α :=
  match moment.left with
  | .done _ => moment
  | .act act next =>
      { moment with left := next (act moment.world).1, world := (act moment.world).2 }
  | .watch payload _ next => moment.keep (manners moment.made payload) next
  | .arm context next => moment.keep context next
  | .form n next => { moment with left := next ((moment.guards n).map Guard.form) }
  | .drop n next =>
      match moment.guards n with
      | none => { moment with left := next (.ok ()) }
      | some guard => moment.part n (next (guard.quit moment.world).1) (guard.quit moment.world).2
  | .dismiss n next =>
      match moment.guards n with
      | none => { moment with left := next }
      | some guard => moment.part n next (guard.dismiss moment.world).2

def after (manners : Manners V σ) : Nat → Moment V σ α → Moment V σ α
  | 0, moment => moment
  | steps + 1, moment => (moment.after manners steps).next manners

end Moment

/-- When guards of two runs are the same to whoever only looks at them or dismisses them. The guards
that are made in either manner are among these. -/
structure Manners.Swap [Host V σ] (manners manners' : Manners V σ) where
  Same : Nat → Guard V (Deferred V σ) → Guard V (Deferred V σ) → Prop
  refl : ∀ n guard, Same n guard guard
  made : ∀ n (payload : Payload V), payload.Inert σ → ∀ baseline wasUnwinding,
    Same n ⟨manners n payload, baseline, wasUnwinding⟩ ⟨manners' n payload, baseline, wasUnwinding⟩
  form : ∀ {n guard guard'}, Same n guard guard' → guard.form = guard'.form
  dismiss : ∀ {n guard guard'}, Same n guard guard' →
    (guard.dismiss : Quiet V σ Unit) = guard'.dismiss

namespace Moment

variable [Host V σ] {manners manners' : Manners V σ}

/-- Two runs that have come to the same world, with the same left to do and the same guards. -/
structure Tied (swap : Manners.Swap manners manners') (moment other : Moment V σ α) : Prop where
  left : moment.left = other.left
  made : moment.made = other.made
  world : moment.world = other.world
  guards : ∀ n, Option.Rel (swap.Same n) (moment.guards n) (other.guards n)

variable {swap : Manners.Swap manners manners'} {moment other : Moment V σ α}

theorem Tied.start (left : Vigil V σ α) (world : World V σ) :
    Tied swap (.start left world) (.start left world) := ⟨rfl, rfl, rfl, fun _ => .none⟩

theorem Tied.keep (tied : Tied swap moment other) {context context' : Context V (Deferred V σ)}
    (same : ∀ baseline wasUnwinding, swap.Same moment.made ⟨context, baseline, wasUnwinding⟩
      ⟨context', baseline, wasUnwinding⟩) (next : Nat → Vigil V σ α) :
    Tied swap (moment.keep context next) (other.keep context' next) := by
  obtain ⟨left, made, guards, world⟩ := moment
  obtain ⟨left', made', guards', world'⟩ := other
  obtain rfl : made = made' := tied.made
  obtain rfl : world = world' := tied.world
  refine ⟨rfl, rfl, rfl, fun n => ?_⟩
  by_cases new : n = made
  · subst new
    simp only [Moment.keep, Function.update_self]
    exact .some (same _ _)
  · simp only [Moment.keep, Function.update_of_ne new]
    exact tied.guards n

theorem Tied.part (tied : Tied swap moment other) (n : Nat) (left : Vigil V σ α)
    (world : World V σ) : Tied swap (moment.part n left world) (other.part n left world) := by
  refine ⟨rfl, tied.made, rfl, fun m => ?_⟩
  by_cases gone : m = n
  · subst gone
    simp only [Moment.part, Function.update_self]
    exact .none
  · simp only [Moment.part, Function.update_of_ne gone]
    exact tied.guards m

theorem Tied.guard_cases (tied : Tied swap moment other) (n : Nat) :
    (moment.guards n = none ∧ other.guards n = none) ∨
      ∃ guard guard', moment.guards n = some guard ∧ other.guards n = some guard' ∧
        swap.Same n guard guard' := by
  have related := tied.guards n
  revert related
  cases moment.guards n <;> cases other.guards n <;> intro related
  · exact .inl ⟨rfl, rfl⟩
  · cases related
  · cases related
  · cases related with
    | some same => exact .inr ⟨_, _, rfl, rfl, same⟩

/-- A step keeps two runs tied, unless it is the drop of guards that act differently. -/
theorem Tied.next (tied : Tied swap moment other)
    (quits : ∀ n next guard guard', moment.left = .drop n next → moment.guards n = some guard →
      other.guards n = some guard' → swap.Same n guard guard' →
        guard.quit moment.world = guard'.quit moment.world) :
    Tied swap (moment.next manners) (other.next manners') := by
  unfold Moment.next
  rw [← tied.left, ← tied.world]
  cases todo : moment.left with
  | done result => exact tied
  | act act next => exact { tied with left := rfl, world := rfl }
  | watch payload inert next =>
      rw [← tied.made]
      exact tied.keep (swap.made _ payload inert) next
  | arm context next => exact tied.keep (fun _ _ => swap.refl _ _) next
  | form n next =>
      have forms : (moment.guards n).map Guard.form = (other.guards n).map Guard.form := by
        obtain ⟨here, there⟩ | ⟨guard, guard', here, there, same⟩ := tied.guard_cases n
        · rw [here, there]
        · rw [here, there, Option.map_some, swap.form same, Option.map_some]
      simp only [forms]
      exact { tied with left := rfl, world := rfl }
  | drop n next =>
      obtain ⟨here, there⟩ | ⟨guard, guard', here, there, same⟩ := tied.guard_cases n
      · simp only [here, there]
        exact { tied with left := rfl, world := rfl }
      · have quit := quits n next guard guard' todo here there same
        simp only [here, there, quit]
        exact tied.part n _ _
  | dismiss n next =>
      obtain ⟨here, there⟩ | ⟨guard, guard', here, there, same⟩ := tied.guard_cases n
      · simp only [here, there]
        exact { tied with left := rfl, world := rfl }
      · simp only [here, there, swap.dismiss same]
        exact tied.part n _ _

end Moment

section Manners

variable [Host V σ]

def Manners.mixed (manner : Nat → Manner) : Manners V σ := fun n payload => (manner n).context payload

inductive Guard.Kindred : Guard V (Deferred V σ) → Guard V (Deferred V σ) → Prop
  | same (guard : Guard V (Deferred V σ)) : Kindred guard guard
  | manners {payload : Payload V} (inert : payload.Inert σ) (manner manner' : Manner)
      (baseline : Option FailureId) (wasUnwinding : Bool) :
      Kindred ⟨manner.context payload, baseline, wasUnwinding⟩
        ⟨manner'.context payload, baseline, wasUnwinding⟩

theorem Guard.Kindred.quit {guard guard' : Guard V (Deferred V σ)} (kindred : Kindred guard guard') :
    guard.quit = guard'.quit := by
  cases kindred with
  | same => rfl
  | manners inert manner manner' => exact quit_context inert manner manner'

theorem Guard.Kindred.dismiss {guard guard' : Guard V (Deferred V σ)}
    (kindred : Kindred guard guard') :
    (guard.dismiss : Quiet V σ Unit) = guard'.dismiss := by
  cases kindred with
  | same => rfl
  | manners inert manner manner' =>
      funext world
      rw [dismiss_context inert, dismiss_context inert]

def Manners.Swap.styles (manner manner' : Nat → Manner) :
    Swap (.mixed manner : Manners V σ) (.mixed manner') where
  Same _ := Guard.Kindred
  refl _ := .same
  made n _ inert := .manners inert (manner n) (manner' n)
  form kindred := by cases kindred <;> rfl
  dismiss := Guard.Kindred.dismiss

theorem Moment.tied_manners (left : Vigil V σ α) (world : World V σ) (manner manner' : Nat → Manner)
    (steps : Nat) :
    Tied (.styles manner manner') ((start left world).after (.mixed manner) steps)
      ((start left world).after (.mixed manner') steps) := by
  induction steps with
  | zero => exact .start left world
  | succ steps ih =>
      refine ih.next fun n next guard guard' _ _ _ same => ?_
      have kindred : Guard.Kindred guard guard' := same
      rw [kindred.quit]

end Manners

section Calling

/-- What a callback does in place of a payload. -/
abbrev Callback (V : Vocabulary) (σ : Type) := (payload : Payload V) → Deferred V σ payload.key

variable [Host V σ]

/-- The manners, but the payload of guard `n` is what a callback answers with. -/
def Manners.calling (manners : Manners V σ) (n : Nat) (code : Callback V σ) : Manners V σ :=
  Function.update manners n fun payload => .deferred payload.key (code payload)

structure Moment.Fires (manners : Manners V σ) (n : Nat) (moment : Moment V σ α)
    (payload : Payload V) (id : FailureId) (guard : Guard V (Deferred V σ))
    (next : Except (Exit V) Unit → Vigil V σ α) : Prop where
  left : moment.left = .drop n next
  kept : moment.guards n = some guard
  context : guard.context = manners n payload
  pending : (guard.target moment.world).1 = some id
  isOpen : (moment.world.thread.stack payload.key).isOpen = true

def Moment.Calls (manners : Manners V σ) (n : Nat) (moment : Moment V σ α) : Prop :=
  ∃ payload id guard next, moment.Fires manners n payload id guard next

variable {manners : Manners V σ} {n : Nat} {code code' : Callback V σ}

inductive Guard.Called (n : Nat) (code code' : Callback V σ) :
    Nat → Guard V (Deferred V σ) → Guard V (Deferred V σ) → Prop
  | same (m : Nat) (guard : Guard V (Deferred V σ)) : Called n code code' m guard guard
  | callbacks (payload : Payload V) (baseline : Option FailureId) (wasUnwinding : Bool) :
      Called n code code' n ⟨.deferred payload.key (code payload), baseline, wasUnwinding⟩
        ⟨.deferred payload.key (code' payload), baseline, wasUnwinding⟩

/-- As long as a callback is not run, it makes no difference what it would do. -/
def Manners.Swap.callbacks (manners : Manners V σ) (n : Nat) (code code' : Callback V σ) :
    Swap (manners.calling n code) (manners.calling n code') where
  Same := Guard.Called n code code'
  refl m := .same m
  made m payload inert baseline wasUnwinding := by
    by_cases here : m = n
    · subst here
      simp only [Manners.calling, Function.update_self]
      exact .callbacks payload baseline wasUnwinding
    · simp only [Manners.calling, Function.update_of_ne here]
      exact .same m _
  form called := by cases called <;> rfl
  dismiss called := by cases called <;> rfl

omit [Host V σ] in
theorem Guard.target_stack (guard : Guard V (Deferred V σ)) (world : World V σ) (key : Key V) :
    (guard.target world).2.thread.stack key = world.thread.stack key := by
  rw [target_apply]
  split_ifs
  · rfl
  · rw [FailureId.reserve_apply, FailureId.upcoming_thread]
    rfl
  · rfl

theorem Guard.quit_heard {guard : Guard V (Deferred V σ)} {key : Key V} {code : Act V σ key.Value}
    {id : FailureId} {world : World V σ} (context : guard.context = .deferred key code)
    (pending : (guard.target world).1 = some id)
    (isOpen : (world.thread.stack key).isOpen = true) :
    guard.quit world =
      (code >>= fun value => discard (quietly (record key value id))) (guard.target world).2 := by
  rw [quit_apply, pending, context]
  simp only
  rw [fire_deferred, target_stack, if_pos isOpen]

theorem Guard.quit_unheard {guard guard' : Guard V (Deferred V σ)} {key : Key V}
    {code code' : Act V σ key.Value} {world : World V σ}
    (baseline : guard.baseline = guard'.baseline)
    (wasUnwinding : guard.wasUnwinding = guard'.wasUnwinding)
    (context : guard.context = .deferred key code) (context' : guard'.context = .deferred key code')
    (unheard : ∀ id, (guard.target world).1 = some id →
      ¬(world.thread.stack key).isOpen = true) : guard.quit world = guard'.quit world := by
  have same : guard.target world = guard'.target world :=
    congrFun (target_congr baseline wasUnwinding) world
  have stack := target_stack guard world key
  rw [quit_apply, quit_apply, ← same]
  rcases pending : (guard.target world).1 with _ | id
  · simp only [dismiss, context, context']
  · simp only [context, context']
    rw [fire_deferred, fire_deferred, stack, if_neg (unheard id pending),
      if_neg (unheard id pending)]

namespace Moment

theorem Tied.next_callbacks {moment other : Moment V σ α}
    (tied : Tied (.callbacks manners n code code') moment other)
    (quiet : ¬moment.Calls (manners.calling n code) n) :
    Tied (.callbacks manners n code code') (moment.next (manners.calling n code))
      (other.next (manners.calling n code')) := by
  refine tied.next fun m next guard guard' left kept _ same => ?_
  have called : Guard.Called n code code' m guard guard' := same
  cases called with
  | same => rfl
  | callbacks payload baseline wasUnwinding =>
      refine Guard.quit_unheard rfl rfl rfl rfl fun id pending isOpen => quiet ?_
      refine ⟨payload, id, _, next, left, kept, ?_, pending, isOpen⟩
      simp only [Manners.calling, Function.update_self]

structure Spent (n : Nat) (moment : Moment V σ α) : Prop where
  made : n < moment.made
  gone : moment.guards n = none

/-- Guards have the numbers of guards that were made. -/
def Numbered (moment : Moment V σ α) : Prop :=
  ∀ n guard, moment.guards n = some guard → n < moment.made

theorem Numbered.start (left : Vigil V σ α) (world : World V σ) : (start left world).Numbered := by
  intro m guard kept
  cases kept

/-- A step adds a guard under the next number, or none and takes away at most. -/
theorem next_guards (manners : Manners V σ) (moment : Moment V σ α) :
    (∃ guard, (moment.next manners).made = moment.made + 1 ∧
      (moment.next manners).guards = Function.update moment.guards moment.made (some guard)) ∨
    (moment.next manners).made = moment.made ∧ ∀ m,
      (moment.next manners).guards m = moment.guards m ∨ (moment.next manners).guards m = none := by
  have parted : ∀ m (left : Vigil V σ α) world k,
      (moment.part m left world).guards k = moment.guards k ∨
        (moment.part m left world).guards k = none := by
    intro m left world k
    by_cases here : k = m
    · subst here
      exact .inr (Function.update_self ..)
    · exact .inl (Function.update_of_ne here ..)
  unfold Moment.next
  cases moment.left with
  | done | act | form => exact .inr ⟨rfl, fun _ => .inl rfl⟩
  | watch | arm => exact .inl ⟨_, rfl, rfl⟩
  | drop m next =>
      rcases here : moment.guards m with _ | guard
      · exact .inr (by simp [here])
      · simp only [here]
        exact .inr ⟨rfl, parted m _ _⟩
  | dismiss m next =>
      rcases here : moment.guards m with _ | guard
      · exact .inr (by simp [here])
      · simp only [here]
        exact .inr ⟨rfl, parted m _ _⟩

theorem Numbered.next {moment : Moment V σ α} (numbered : moment.Numbered) :
    (moment.next manners).Numbered := by
  intro m guard kept
  obtain ⟨new, made, guards⟩ | ⟨made, guards⟩ := moment.next_guards manners
  · rw [made]
    rw [guards] at kept
    by_cases last : m = moment.made
    · exact last ▸ Nat.lt_succ_self _
    · rw [Function.update_of_ne last] at kept
      exact Nat.lt_succ_of_lt (numbered m guard kept)
  · rw [made]
    obtain same | gone := guards m
    · exact numbered m guard (same ▸ kept)
    · rw [gone] at kept
      cases kept

theorem Spent.next {moment : Moment V σ α} (spent : moment.Spent n) :
    (moment.next manners).Spent n := by
  obtain ⟨new, made, guards⟩ | ⟨made, guards⟩ := moment.next_guards manners
  · refine ⟨made ▸ Nat.lt_succ_of_lt spent.made, ?_⟩
    rw [guards, Function.update_of_ne (Nat.ne_of_lt spent.made)]
    exact spent.gone
  · refine ⟨made ▸ spent.made, ?_⟩
    obtain same | gone := guards n
    · exact same.trans spent.gone
    · exact gone

theorem Numbered.after {moment : Moment V σ α} (numbered : moment.Numbered) (steps : Nat) :
    (moment.after manners steps).Numbered := by
  induction steps with
  | zero => exact numbered
  | succ steps ih => exact ih.next

theorem Spent.after {moment : Moment V σ α} (spent : moment.Spent n) (steps : Nat) :
    (moment.after manners steps).Spent n := by
  induction steps with
  | zero => exact spent
  | succ steps ih => exact ih.next

/-- Nobody asks any more how the payload of a guard would come about that is gone. -/
theorem Spent.next_calling {moment : Moment V σ α} (spent : moment.Spent n) :
    moment.next (manners.calling n code) = moment.next (manners.calling n code') := by
  unfold Moment.next
  cases moment.left with
  | watch payload inert next =>
      have other : moment.made ≠ n := Nat.ne_of_gt spent.made
      simp only [Manners.calling, Function.update_of_ne other]
  | done | act | arm | form | drop | dismiss => rfl

theorem Spent.after_calling {moment : Moment V σ α} (spent : moment.Spent n) (steps : Nat) :
    moment.after (manners.calling n code) steps = moment.after (manners.calling n code') steps := by
  induction steps with
  | zero => rfl
  | succ steps ih =>
      rw [Moment.after, Moment.after, ih]
      exact (spent.after steps).next_calling

theorem Spent.silent {moment : Moment V σ α} (spent : moment.Spent n) :
    ¬moment.Calls manners n := by
  rintro ⟨payload, id, guard, next, fires⟩
  have gone := spent.gone.symm.trans fires.kept
  cases gone

theorem Fires.next_eq {moment : Moment V σ α} {payload : Payload V} {id : FailureId}
    {guard : Guard V (Deferred V σ)} {next : Except (Exit V) Unit → Vigil V σ α}
    (fires : moment.Fires manners n payload id guard next) :
    moment.next manners' =
      moment.part n (next (guard.quit moment.world).1) (guard.quit moment.world).2 := by
  unfold Moment.next
  rw [fires.left]
  simp only [fires.kept]

theorem Fires.spent {moment : Moment V σ α} {payload : Payload V} {id : FailureId}
    {guard : Guard V (Deferred V σ)} {next : Except (Exit V) Unit → Vigil V σ α}
    (fires : moment.Fires manners n payload id guard next) (numbered : moment.Numbered) :
    (moment.next manners').Spent n := by
  rw [fires.next_eq]
  exact ⟨numbered n guard fires.kept, Function.update_self ..⟩

end Moment

structure CalledOnce (manners : Manners V σ) (n : Nat) (code : Callback V σ)
    (start : Moment V σ α) : Prop where
  /-- Until the guard fires, it makes no difference what the callback would do. -/
  before : ∀ (code' : Callback V σ) (steps : Nat),
    (∀ earlier < steps, ¬(start.after (manners.calling n code) earlier).Calls
      (manners.calling n code) n) →
    (start.after (manners.calling n code') steps).left =
        (start.after (manners.calling n code) steps).left ∧
      (start.after (manners.calling n code') steps).world =
        (start.after (manners.calling n code) steps).world
  /-- When it fires, the callback is run and its value recorded. -/
  during : ∀ (steps : Nat) (payload : Payload V) (id : FailureId) (guard : Guard V (Deferred V σ))
      (next : Except (Exit V) Unit → Vigil V σ α),
    (start.after (manners.calling n code) steps).Fires (manners.calling n code) n payload id guard
      next →
    ∃ ended later, (code payload >>= fun value => discard (quietly (record payload.key value id)))
        (guard.target (start.after (manners.calling n code) steps).world).2 = (ended, later) ∧
      (start.after (manners.calling n code) (steps + 1)).left = next ended ∧
      (start.after (manners.calling n code) (steps + 1)).world = later
  /-- From then on it does not fire, nor make a difference. -/
  afterwards : ∀ steps : Nat, (start.after (manners.calling n code) steps).Calls
      (manners.calling n code) n →
    ∀ (code' : Callback V σ) (more : Nat),
      ¬((start.after (manners.calling n code) (steps + 1)).after (manners.calling n code) more).Calls
        (manners.calling n code) n ∧
      (start.after (manners.calling n code) (steps + 1)).after (manners.calling n code') more =
        (start.after (manners.calling n code) (steps + 1)).after (manners.calling n code) more

theorem Moment.called_once (manners : Manners V σ) (n : Nat) (code : Callback V σ)
    (left : Vigil V σ α) (world : World V σ) : CalledOnce manners n code (.start left world) := by
  refine ⟨fun code' steps quiet => ?_, fun steps payload id guard next fires => ?_,
    fun steps calls code' more => ?_⟩
  -- the runs stay tied up to the first moment in which the guard fires
  · have tied : Tied (.callbacks manners n code code')
        ((start left world).after (manners.calling n code) steps)
        ((start left world).after (manners.calling n code') steps) := by
      induction steps with
      | zero => exact .start left world
      | succ steps ih =>
          have tied := ih fun earlier before => quiet earlier (Nat.lt_succ_of_lt before)
          exact tied.next_callbacks (quiet steps (Nat.lt_succ_self _))
    exact ⟨tied.left.symm, tied.world.symm⟩
  · have context : guard.context = .deferred payload.key (code payload) :=
      fires.context.trans (by simp only [Manners.calling, Function.update_self])
    refine ⟨_, _, rfl, ?_⟩
    rw [after, fires.next_eq, Guard.quit_heard context fires.pending fires.isOpen]
    exact ⟨rfl, rfl⟩
  · obtain ⟨payload, id, guard, next, fires⟩ := calls
    have spent : Spent n ((start left world).after (manners.calling n code) (steps + 1)) :=
      fires.spent ((Numbered.start left world).after steps)
    exact ⟨(spent.after more).silent, spent.after_calling more⟩

end Calling

/-- It makes no difference to a run whether the payload of a guard is made with the guard or by a
callback, for any number of its guards: at every moment the worlds are the same, and with them the
contents of all slots, tallies and identities, and so is what is left to do, which depends on all
answers before. Nor does it around any act. A callback is run in one moment at most, which is when
its guard is dropped while a failure is pending and its type is open. -/
theorem prepared_and_deferred_guards_agree [Host V σ] (left : Vigil V σ α) (world : World V σ) :
    (∀ (manner manner' : Nat → Manner) (steps : Nat),
      Moment.Tied (.styles manner manner') ((Moment.start left world).after (.mixed manner) steps)
        ((Moment.start left world).after (.mixed manner') steps)) ∧
    (∀ (payload : Payload V), payload.Inert σ → ∀ (manner manner' : Manner) (inner : Act V σ β),
      Guard.around (fun _ (code : Deferred V σ _) => code) (manner.context payload) inner =
        Guard.around (fun _ (code : Deferred V σ _) => code) (manner'.context payload) inner) ∧
    ∀ (manners : Manners V σ) (n : Nat) (code : Callback V σ),
      CalledOnce manners n code (.start left world) := by
  refine ⟨Moment.tied_manners left world, fun payload inert manner manner' inner => ?_,
    fun manners n code => Moment.called_once manners n code left world⟩
  funext before
  have quits : (Guard.arm (manner.context payload) before).1.quit =
      (Guard.arm (manner'.context payload) before).1.quit := Guard.quit_context inert manner manner'
  rw [Guard.around_apply, Guard.around_apply]
  exact congrArg (inner.ensuring · before) quits

namespace Scenario

/-- A guard with a code, which fires for a failure while no code is open. -/
def lookout : Vigil application Diary Bool :=
  .watch (payload .code 7) rfl fun n =>
    .act (quietly FailureId.mint) fun _ => .drop n fun ended => .done ended.toBool

def countingHouse : World application Diary :=
  ((⟨.ofList [.counting]⟩ : Scope application).enter morning).2

/-- In both manners the code is counted as a stray, and by then the run is done. -/
theorem lookout_is_left_alike :
    ((Moment.start lookout countingHouse).after (.mixed fun _ => .prepared) 3).world =
        ((Moment.start lookout countingHouse).after (.mixed fun _ => .deferred) 3).world ∧
      ((((Moment.start lookout countingHouse).after (.mixed fun _ => .deferred) 3).world.thread.stack
        .tally).valueFor (FailureId.numbered 1).raw) = some (.one (Topic.ofKind .code).name) ∧
      ((Moment.start lookout countingHouse).after (.mixed fun _ => .deferred) 3).left = .done true ∧
      Guard.around (fun _ (code : Deferred application Diary _) => code)
          (Manner.prepared.context (payload .code 7)) (quietly FailureId.mint) =
        Guard.around (fun _ code => code) (Manner.deferred.context (payload .code 7))
          (quietly FailureId.mint) := by
  obtain ⟨run, around, _⟩ := prepared_and_deferred_guards_agree (β := FailureId) lookout countingHouse
  have tied := run (fun _ => .prepared) (fun _ => .deferred) 3
  exact ⟨tied.world, rfl, rfl, around (payload .code 7) rfl .prepared .deferred _⟩

end Scenario

end FaultRelay

import FaultRelay.Proofs.Reframing
import FaultRelay.Proofs.SplitChain

/-! Where the context of a guard goes when its frame is unwound. A guard does not see the object that
is thrown. It goes by the identities of the thread: one that became current since the guard was made,
or else the next one to be made, which it has promised. The block that stops the unwinding goes by
the object. Its handlers find the context just when both mean the same failure; otherwise the context
stays for the failure that the guard saw. -/
namespace FaultRelay

variable {V : Vocabulary} {σ α β ρ : Type}

section Guards

variable {κ : Key V → Type}

namespace Guard

/-- The failure that a guard with this baseline takes an unwinding thread to signal. -/
def sees (baseline : Option FailureId) (world : World V σ) : FailureId :=
  if world.thread.current = baseline then (FailureId.upcoming world).1
  else world.thread.current.getD (FailureId.upcoming world).1

def looked (baseline : Option FailureId) (world : World V σ) : World V σ :=
  if world.thread.current = baseline then (FailureId.reserve world).2 else world

def around [Host V σ] (run : (key : Key V) → κ key → Act V σ key.Value) (context : Context V κ)
    (inner : Act V σ β) : Act V σ β := do
  let guard ← quietly (arm context)
  inner.ensuring (guard.drop run)

variable {guard : Guard V κ} {baseline : Option FailureId} {world : World V σ} {id : FailureId}

theorem target_unwinding (calm : guard.wasUnwinding = false)
    (unwinding : 0 < world.thread.unwindings)
    (kept : world.thread.current = none → guard.baseline = none) :
    guard.target world = (some (sees guard.baseline world), looked guard.baseline world) := by
  unfold target sees looked
  simp only [bind, StateT.bind, FailureId.current_apply]
  by_cases same : world.thread.current = guard.baseline
  · have asked : Guard.unwinding world = (true, world) := by
      change (decide (0 < world.thread.unwindings), world) = _
      rw [decide_eq_true unwinding]
    rw [if_neg (not_not.2 same), if_pos same, if_pos same]
    simp only [StateT.bind, asked, calm]
    rfl
  · rw [if_pos same, if_neg same, if_neg same]
    rcases known : world.thread.current with _ | current
    · exact absurd (known.trans (kept known).symm) same
    · rfl

/-- The promise of a guard is kept by the next failure. -/
theorem mint_looked {later : World V σ} (same : world.thread.current = baseline)
    (promised : later.thread.reserved = (looked baseline world).thread.reserved) :
    (FailureId.mint later).1 = sees baseline world := by
  rw [looked, if_pos same, FailureId.reserve_apply] at promised
  rw [sees, if_pos same, FailureId.mint_apply, FailureId.upcoming_reserved promised]

section Passing

variable [Host V σ] {run : (key : Key V) → κ key → Act V σ key.Value} {context : Context V κ}
  {inner : Act V σ β} {object : Thrown V}

theorem around_apply (context : Context V κ) (inner : Act V σ β) (world : World V σ) :
    around run context inner world = inner.ensuring ((arm context world).1.drop run) world := rfl

theorem fire_deferred (key : Key V) (code : κ key) (id : FailureId) (world : World V σ) :
    fire run (.deferred key code) id world =
      if (world.thread.stack key).isOpen then
        (run key code >>= fun value => discard (quietly (record key value id))) world
      else (.ok (), (noteStray key id world).2) := by
  have asked : (quietly (Slot.isOpen key) : Act V σ Bool) world =
      (.ok (world.thread.stack key).isOpen, world) := rfl
  change ((quietly (Slot.isOpen key) : Act V σ Bool) >>= fun isOpen =>
    if isOpen then _ else _) world = _
  rw [bind_ok (by rw [asked]), asked]
  split <;> rfl

/-- What an armed guard does when an unwinding passes it that began after the guard was made. -/
def pass (run : (key : Key V) → κ key → Act V σ key.Value) (context : Context V κ)
    (baseline : Option FailureId) : Act V σ Unit :=
  fun world => fire run context (sees baseline world) (looked baseline world)

theorem drop_unwinding (calm : guard.wasUnwinding = false)
    (unwinding : 0 < world.thread.unwindings)
    (kept : world.thread.current = none → guard.baseline = none) :
    guard.drop run world = pass run guard.context guard.baseline world := by
  have asked : (quietly guard.target : Act V σ (Option FailureId)) world =
      (.ok (some (sees guard.baseline world)), looked guard.baseline world) := by
    unfold quietly
    rw [target_unwinding calm unwinding kept]
  unfold drop
  rw [bind_ok (by rw [asked]), asked]
  rfl

theorem around_unwinding (calm : world.thread.unwindings = 0)
    (unwound : (inner world).1 = .error (.unwinding object))
    (unwinding : 0 < (inner world).2.thread.unwindings)
    (kept : (inner world).2.thread.current = none → world.thread.current = none)
    (passes : (pass run context world.thread.current (inner world).2).1 = .ok ()) :
    around run context inner world =
      (.error (.unwinding object), (pass run context world.thread.current (inner world).2).2) := by
  let guard : Guard V κ := ⟨context, world.thread.current, false⟩
  have armed : (quietly (arm context) : Act V σ (Guard V κ)) world = (.ok guard, world) := by
    change (Except.ok (⟨context, world.thread.current, decide (0 < world.thread.unwindings)⟩ :
      Guard V κ), world) = _
    rw [calm]
    rfl
  have dropped : guard.drop run (inner world).2 = _ := drop_unwinding rfl unwinding kept
  have cleaned : (inner.onUnwinding (guard.drop run) world).1 = .error (.unwinding object) := by
    rw [onUnwinding_cleanup unwound, dropped, passes]
  unfold around Act.ensuring
  rw [bind_ok (by rw [armed]), armed, bind_error cleaned, onUnwinding_cleanup unwound, dropped]

end Passing

end Guard

end Guards

section Paths

/-- To run `act` in `world` comes to running `inner` in `place`, and what unwinds from there unwinds
from `act`, by way of the cleanups in between. -/
inductive Leads : {α β : Type} → Act V σ α → World V σ → Act V σ β → World V σ → Prop
  | here {α : Type} (act : Act V σ α) (world : World V σ) : Leads act world act world
  | first {α β γ : Type} {act : Act V σ α} {next : α → Act V σ γ} {inner : Act V σ β}
      {world place : World V σ} (leads : Leads act world inner place) :
      Leads (act >>= next) world inner place
  | second {α β γ : Type} {act : Act V σ α} {next : α → Act V σ γ} {inner : Act V σ β}
      {world place : World V σ} {value : α} (returned : (act world).1 = .ok value)
      (leads : Leads (next value) (act world).2 inner place) : Leads (act >>= next) world inner place
  | cleanup {α β : Type} {act : Act V σ α} {clean : Act V σ Unit} {inner : Act V σ β}
      {world place : World V σ} (leads : Leads act world inner place) :
      Leads (act.onUnwinding clean) world inner place
  | map {α β γ : Type} {act : Act V σ α} {change : α → γ} {inner : Act V σ β}
      {world place : World V σ} (leads : Leads act world inner place) :
      Leads (change <$> act) world inner place

theorem Leads.unwinds {α β : Type} {act : Act V σ α} {inner : Act V σ β} {world place : World V σ}
    {object : Thrown V} (leads : Leads act world inner place)
    (unwound : (inner place).1 = .error (.unwinding object))
    (finished : (act world).1 ≠ .error .aborted) : (act world).1 = .error (.unwinding object) := by
  induction leads with
  | here => exact unwound
  | @first _ _ _ act next _ world _ _ ih =>
      have went : (act world).1 = .error (.unwinding object) := by
        refine ih unwound fun aborted => finished ?_
        rw [bind_error aborted]
      rw [bind_error went]
  | second returned _ ih =>
      rw [bind_ok returned] at finished ⊢
      exact ih unwound finished
  | @cleanup _ _ act clean _ world _ _ ih =>
      have went : (act world).1 = .error (.unwinding object) := by
        refine ih unwound fun aborted => finished ?_
        rw [onUnwinding_passed (by simp [aborted]), aborted]
      rw [onUnwinding_cleanup went] at finished ⊢
      rcases ended : (clean (act world).2).1 with exit | ⟨⟩
      · rw [ended] at finished
        exact absurd rfl finished
      · rfl
  | @map _ _ _ act change _ world _ _ ih =>
      rw [map_apply] at finished ⊢
      have went : (act world).1 = .error (.unwinding object) := by
        refine ih unwound fun aborted => finished ?_
        rw [aborted]
        rfl
      rw [went]
      rfl

end Paths

section Catching

variable [Host V σ]

omit [Host V σ] in
theorem thrown_catching (chain : Chain V σ ρ) : .thrown ∈ (Scope.catching chain).interest.keys :=
  (@Interest.mem_keys_extend _ _ [.of .thrown] _).2 (.inr List.mem_cons_self)

theorem catching_apply {settle : α → Act V σ ρ} {body : Act V σ α} {total : TotalChain V σ ρ}
    {world : World V σ} {object : Thrown V}
    (unwound : (body ((Scope.catching total.chain).enter world).2).1 =
      .error (.unwinding object)) :
    catching settle body total world =
      (total.dispatch
        (object.keep (body ((Scope.catching total.chain).enter world).2).2.stopped).1).ensuring
        (quietly ((Scope.catching total.chain).enter world).1.leave)
        (object.keep (body ((Scope.catching total.chain).enter world).2).2.stopped).2 := by
  have stopped := attempt_unwound unwound
  unfold catching
  rw [during_apply, bind_ok (by rw [stopped]), stopped, ensuring_quietly_apply]
  rfl

/-- To record a value is nothing to what identities the thread has. Nor is it anything to the slots
of another type, save that the tally counts a stray. -/
theorem record_elsewhere {key : Key V}
    (inert : ∀ value, release key value = (pure () : Quiet V σ Unit)) (value : key.Value)
    (id : FailureId) (world : World V σ) :
    (record key value id world).2.thread.current = world.thread.current ∧
      (record key value id world).2.thread.reserved = world.thread.reserved ∧
      ∀ other ≠ key, other ≠ .tally ∨ (world.thread.stack key).isOpen = true →
        (record key value id world).2.thread.stack other = world.thread.stack other := by
  rw [record_apply]
  rcases stack : world.thread.stack key with ⟨_ | ⟨top, below⟩⟩
  · rw [put_closed stack]
    dsimp only
    rw [inert, noteStray_apply]
    change (if _ then _ else _ : World V σ).thread.current = _ ∧
      (if _ then _ else _ : World V σ).thread.reserved = _ ∧ _
    split
    · refine ⟨rfl, rfl, fun other _ among => Thread.stack_setStack_other _ _ ?_⟩
      exact among.resolve_right (by simp [Stack.isOpen])
    · exact ⟨rfl, rfl, fun _ _ _ => rfl⟩
  · rw [put_open stack]
    have beside := fun (other : Key V) (differ : other ≠ key) =>
      Thread.stack_setStack_other world.thread ⟨top.put id.raw value :: below⟩ differ
    cases top.value? with
    | none => exact ⟨rfl, rfl, fun other differ _ => beside other differ⟩
    | some previous =>
        dsimp only
        rw [inert]
        exact ⟨rfl, rfl, fun other differ _ => beside other differ⟩

theorem keep_carried {object : Thrown V} {id : FailureId} (carries : object.carried? = some id)
    (world : World V σ) :
    (object.keep world).1 = id ∧
      (∀ kind, (object.keep world).2.thread.stack (.app kind) = world.thread.stack (.app kind)) ∧
      (object.keep world).2.thread.reserved = world.thread.reserved := by
  have kept : object.keep world =
      (id, (record .thrown object id (emit (V := V) (.caught id) world).2).2) := by
    unfold Thrown.keep Thrown.identify
    rw [carries]
    rfl
  obtain ⟨_, reserved, beside⟩ := @record_elsewhere _ _ _ .thrown (fun _ => rfl) object id
    (emit (V := V) (.caught id) world).2
  rw [kept]
  exact ⟨rfl, fun kind => beside (.app kind) (by simp) (.inl (by simp)), reserved⟩

end Catching

section Contexts

variable {κ : Key V → Type} {kind : V.Kind} {value : V.Value kind}

namespace Guard

/-- Passing the guard leaves `value` as the last of its type, recorded for the failure seen. -/
def Leaves [Host V σ] (run : (key : Key V) → κ key → Act V σ key.Value) (context : Context V κ)
    (kind : V.Kind) (value : V.Value kind) (baseline : Option FailureId) (world : World V σ) :
    Prop :=
  (pass run context baseline world).1 = .ok () ∧
    ∃ top, ((pass run context baseline world).2.thread.stack (.app kind)).top? = some top ∧
      top.held = some ((sees baseline world).raw, value)

variable {baseline : Option FailureId} {world : World V σ}

theorem stack_looked (baseline : Option FailureId) (world : World V σ) (key : Key V) :
    (looked baseline world).thread.stack key = world.thread.stack key := by
  unfold looked
  split
  · have same := FailureId.upcoming_thread world
    rw [FailureId.reserve_apply, same]
    rfl
  · rfl

section Inert

variable [Host V σ] {run : (key : Key V) → κ key → Act V σ key.Value}
  (inert : ∀ key value, release key value = (pure () : Quiet V σ Unit))
include inert

theorem record_leaves (id : FailureId) (opened : (world.thread.stack (.app kind)).isOpen = true) :
    ∃ top, ((record (.app kind) value id world).2.thread.stack (.app kind)).top? = some top ∧
      top.held = some (id.raw, value) := by
  rcases stack : world.thread.stack (.app kind) with ⟨_ | ⟨top, below⟩⟩
  · rw [stack] at opened
    cases opened
  have alive : world.thread.store ≠ none := Thread.alive_of_frames (by rw [stack]; simp)
  have later : (record (.app kind) value id world).2.thread =
      world.thread.setStack (.app kind) ⟨top.put id.raw value :: below⟩ := by
    rw [record_apply, put_open stack]
    cases top.value? with
    | none => rfl
    | some previous =>
        dsimp only
        rw [inert]
        rfl
  rw [later, Thread.stack_setStack alive]
  exact ⟨_, rfl, rfl⟩

theorem leaves_deferred {code : κ (.app kind)}
    (opened : (world.thread.stack (.app kind)).isOpen = true)
    (returned : (run (.app kind) code (looked baseline world)).1 = .ok value)
    (still : ((run (.app kind) code (looked baseline world)).2.thread.stack
      (.app kind)).isOpen = true) :
    Leaves run (.deferred (.app kind) code) kind value baseline world := by
  have fired : pass run (.deferred (.app kind) code) baseline world =
      (.ok (), (record (.app kind) value (sees baseline world)
        (run (.app kind) code (looked baseline world)).2).2) := by
    unfold pass
    rw [fire_deferred, stack_looked, if_pos opened, bind_ok returned]
    rfl
  unfold Leaves
  rw [fired]
  exact ⟨rfl, record_leaves inert _ still⟩

theorem isOpen_record (payload : Payload V) (id : FailureId)
    (opened : (world.thread.stack (.app kind)).isOpen = true) :
    ((record payload.key payload.value id world).2.thread.stack (.app kind)).isOpen = true := by
  obtain ⟨key, value⟩ := payload
  by_cases own : key = .app kind
  · subst own
    obtain ⟨top, innermost, _⟩ : ∃ top, ((record (.app kind) value id world).2.thread.stack
        (.app kind)).top? = some top ∧ top.held = _ := record_leaves inert id opened
    rw [Stack.isOpen_of_top innermost]
  · obtain ⟨_, _, beside⟩ := record_elsewhere (inert key) value id world
    rwa [beside (.app kind) (Ne.symm own) (.inl (by simp))]

theorem recordAll_elsewhere {payloads : List (Payload V)} (id : FailureId)
    (others : ∀ payload ∈ payloads, payload.key ≠ .app kind) :
    (recordAll payloads id world).2.thread.stack (.app kind) = world.thread.stack (.app kind) := by
  induction payloads generalizing world with
  | nil => rfl
  | cons payload rest ih =>
      obtain ⟨other, further⟩ := List.forall_mem_cons.1 others
      obtain ⟨_, _, beside⟩ :=
        record_elsewhere (inert payload.key) payload.value id world
      exact (ih further).trans (beside (.app kind) other.symm (.inl (by simp)))

theorem recordAll_leaves (id : FailureId) {before after : List (Payload V)}
    (opened : (world.thread.stack (.app kind)).isOpen = true)
    (last : ∀ payload ∈ after, payload.key ≠ .app kind) :
    ∃ top, ((recordAll (before ++ ⟨.app kind, value⟩ :: after) id world).2.thread.stack
      (.app kind)).top? = some top ∧ top.held = some (id.raw, value) := by
  induction before generalizing world with
  | nil =>
      obtain ⟨top, innermost, held⟩ : ∃ top, ((record (.app kind) value id world).2.thread.stack
          (.app kind)).top? = some top ∧ top.held = _ := record_leaves inert id opened
      exact ⟨top, (congrArg Stack.top? (recordAll_elsewhere inert id last)).trans innermost, held⟩
  | cons payload rest ih => exact ih (isOpen_record inert payload id opened)

theorem leaves_prepared (before after : List (Payload V))
    (opened : (world.thread.stack (.app kind)).isOpen = true)
    (last : ∀ payload ∈ after, payload.key ≠ .app kind) :
    Leaves run (.prepared (before ++ ⟨.app kind, value⟩ :: after)) kind value baseline world := by
  rw [← stack_looked baseline] at opened
  exact ⟨rfl, recordAll_leaves inert _ opened last⟩

end Inert

end Guard

end Contexts

section Blocks

variable [Host V σ] {κ : Key V → Type} {run : (key : Key V) → κ key → Act V σ key.Value}
  {context : Context V κ} {kind : V.Kind} {value : V.Value kind} {inner : Act V σ β}
  {body : Act V σ α} {settle : α → Act V σ ρ} {total : TotalChain V σ ρ}
  {world before entered : World V σ} {active : OpenScope V} {object : Thrown V} {id : FailureId}

/-- A guard is made around `inner` in a thread that is not unwinding, and is passed by `object`. -/
structure Guard.Passed (run : (key : Key V) → κ key → Act V σ key.Value) (context : Context V κ)
    (inner : Act V σ β) (before : World V σ) (object : Thrown V) : Prop where
  calm : before.thread.unwindings = 0
  unwound : (inner before).1 = .error (.unwinding object)
  unwinding : 0 < (inner before).2.thread.unwindings
  /-- A thread does not forget that it had a failure. -/
  kept : (inner before).2.thread.current = none → before.thread.current = none
  passes : (pass run context before.thread.current (inner before).2).1 = .ok ()

/-- A guard is passed by an unwinding on its way to the block that stops it. The block dispatches the
failure that the object carries. What the guard leaves, and scopes bring down, is there for the
failure that the guard saw and for no other. If the thread had made none since the guard was made,
that is the next one made. While values end without effect, a guard leaves the last payload of a type
that it was given, and what its callback answers. -/
theorem context_is_found_by_the_failure_the_guard_saw
    (enters : (Scope.catching total.chain).enter world = (active, entered))
    (leads : Leads body entered (Guard.around run context inner) before)
    (passed : Guard.Passed run context inner before object)
    (carries : object.carried? = some id) (finished : (body entered).1 ≠ .error .aborted) :
    let signalled := (inner before).2
    let baseline := before.thread.current
    ∃ heard : World V σ,
      catching settle body total world =
        (total.dispatch id).ensuring (quietly active.leave) heard ∧
      (∀ kind value, Guard.Leaves run context kind value baseline signalled →
        Stack.Brought active.token
          ((Guard.around run context inner before).2.thread.stack (.app kind))
          ((body entered).2.thread.stack (.app kind)) →
        ∀ other : FailureId, (heard.thread.stack (.app kind)).valueFor other.raw =
          if Guard.sees baseline signalled = other then some value else none) ∧
      (signalled.thread.current = baseline →
        (body entered).2.thread.reserved = (Guard.looked baseline signalled).thread.reserved →
        (FailureId.mint heard).1 = Guard.sees baseline signalled) ∧
      ((∀ key value, release key value = (pure () : Quiet V σ Unit)) →
        ∀ kind value, (signalled.thread.stack (.app kind)).isOpen = true →
          (∀ earlier later, context = .prepared (earlier ++ ⟨.app kind, value⟩ :: later) →
            (∀ payload ∈ later, payload.key ≠ .app kind) →
              Guard.Leaves run context kind value baseline signalled) ∧
          ∀ code, context = .deferred (.app kind) code →
            (run (.app kind) code (Guard.looked baseline signalled)).1 = .ok value →
            ((run (.app kind) code (Guard.looked baseline signalled)).2.thread.stack
              (.app kind)).isOpen = true →
              Guard.Leaves run context kind value baseline signalled) := by
  intro signalled baseline
  obtain ⟨calm, unwound, unwinding, kept, passes⟩ := passed
  have around := Guard.around_unwinding calm unwound unwinding kept passes
  have ended := leads.unwinds (by rw [around]) finished
  obtain ⟨same, beside, reserved⟩ := keep_carried carries (body entered).2.stopped
  have caught : catching settle body total world = _ :=
    catching_apply (by rw [enters]; exact ended)
  rw [enters, same] at caught
  -- the guard has left the value in the slot before anything above it was cleaned up
  refine ⟨_, caught, fun kind value leaves brought other => ?_, fun current promised => ?_,
    fun inert kind value opened => ⟨?_, ?_⟩⟩
  · obtain ⟨-, top, innermost, held⟩ := leaves
    rw [around] at brought
    have found := brought.valueFor innermost held other.raw
    rw [beside kind]
    exact found.trans (if_congr ⟨FailureId.raw_injective, congrArg FailureId.raw⟩ rfl rfl)
  · exact Guard.mint_looked current (reserved.trans promised)
  · rintro earlier later rfl last
    exact Guard.leaves_prepared inert earlier later opened last
  · rintro code rfl returned still
    exact Guard.leaves_deferred inert opened returned still

end Blocks

namespace Scenario

def token : Context application fun key => key.Value := .prepared [payload .code (7 : Int)]

/-- Runs `inner` under a guard with a code. A callback would answer with what it is. -/
def under (inner : Act application Diary Bool) : Act application Diary Bool :=
  Guard.around (fun _ value => pure value) token inner

def hearing : Handler application Diary Bool :=
  ⟨[.take (Topic.ofKind .code)], [], fun _ => pure true⟩

def missing : Handler application Diary Bool := ⟨[], [], fun _ => pure false⟩

def attentive : TotalChain application Diary Bool :=
  ⟨Chain.ofList [hearing, missing], missing, rfl, rfl⟩

/-- Makes a failure, and under a guard signals another. -/
def stumble : Act application Diary Bool := do
  let _ ← quietly (newFailure [])
  under (raise [])

/-- The second failure is made under the guard, which sees it. -/
theorem new_failure_finds_the_code : ∃ heard : World application Diary,
    catchUnwinding stumble attentive morning =
      (attentive.dispatch (.numbered 2)).ensuring
        (quietly ((Scope.catching attentive.chain).enter morning).1.leave) heard ∧
      (heard.thread.stack (Topic.ofKind .code)).valueFor (FailureId.numbered 2).raw =
        some (7 : Int) := by
  let run := fun (key : Key application) (value : key.Value) =>
    (pure value : Act application Diary key.Value)
  let entered := ((Scope.catching attentive.chain).enter morning).2
  let before := (newFailure (V := application) [] entered).2
  let inner : Act application Diary Bool := raise []
  have leads : Leads stumble entered (Guard.around run token inner) before :=
    .second rfl (.here _ _)
  have passed : Guard.Passed run token inner before (.unwound (.numbered 2)) :=
    ⟨rfl, rfl, by decide, fun none => (by cases none), rfl⟩
  have carries : (Thrown.unwound (.numbered 2) : Thrown application).carried? =
      some (.numbered 2) := rfl
  have finished : (stumble entered).1 ≠ .error .aborted := fun aborted => by cases aborted
  obtain ⟨heard, caught, found, -, ends⟩ : ∃ heard : World application Diary,
      catching pure stumble attentive morning = _ ∧ _ :=
    context_is_found_by_the_failure_the_guard_saw rfl leads passed carries finished
  have leaves := (ends release_inert Kind.code (7 : Int) rfl).1 [] [] rfl (by simp)
  rw [catchUnwinding_eq]
  exact ⟨heard, caught, found Kind.code (7 : Int) leaves .still (.numbered 2)⟩

def resignal : Act application Diary Bool := do
  let id ← quietly FailureId.mint
  catchUnwinding (under id.raise) attentive

/-- A failure that was made before the guard is handled without the context, and the next failure
finds it though no guard was there. -/
theorem guard_takes_an_old_failure_for_a_new_one :
    (resignal morning).1.toOption = some false ∧
      (catchUnwinding (do discard resignal; raise []) attentive morning).1.toOption = some true := by
  decide +kernel

end Scenario

end FaultRelay

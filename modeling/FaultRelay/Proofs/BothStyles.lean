import FaultRelay.Proofs.ThrownAside

/-! The two styles of signalling a failure. A body is made of steps, scopes and guards in nested
frames; where it fails, the failure is either returned through all frames, or unwinds through them.
If the failure is the latest of its thread, and later than the guards around it, then all guards fire
for it in either style, and a block that takes both cannot tell the styles apart but by the object
that was thrown. -/
namespace FaultRelay

variable {V : Vocabulary} {σ α β ρ : Type} {κ : Key V → Type}

inductive Style where
  | returning
  | unwinding

def Style.signal [Observer σ] (id : FailureId) : Style → Act V σ (Except FailureId α)
  | returning => return .error id
  | unwinding => id.raise

inductive Nesting (V : Vocabulary) (σ : Type) [Host V σ] (κ : Key V → Type) : Type → Type 1
  | signal {α : Type} (id : FailureId) : Nesting V σ κ α
  | done {α : Type} (value : α) : Nesting V σ κ α
  | step {α β : Type} (act : Act V σ β) (program : Program .all [] act fun _ => [])
      (next : β → Nesting V σ κ α) : Nesting V σ κ α
  | within {α : Type} (scope : Scope V) (inner : Nesting V σ κ α) : Nesting V σ κ α
  /-- A guard of the application; the type of thrown objects is the library's own. -/
  | under {α : Type} (context : Context V κ) (apart : .thrown ∉ context.keys)
      (inner : Nesting V σ κ α) : Nesting V σ κ α
  /-- A frame that returns the failures of an inner one. -/
  | call {α β : Type} (inner : Nesting V σ κ β) (next : β → Nesting V σ κ α) : Nesting V σ κ α

namespace Nesting

variable [Host V σ] (run : (key : Key V) → κ key → Act V σ key.Value)

def act (style : Style) : {α : Type} → Nesting V σ κ α → Act V σ (Except FailureId α)
  | _, signal id => style.signal id
  | _, done value => return .ok value
  | _, step act _ next => do (next (← act)).act style
  | _, within scope inner => scope.during fun _ => inner.act style
  | _, under context _ inner => Guard.around run context (inner.act style)
  | _, call inner next => do
      match ← inner.act style with
      | .ok value => (next value).act style
      | .error id => return .error id

/-- Wherever the body fails, the failure is the latest of the thread, and was not current yet when the
guards around it were made. `baselines` is what was current then. -/
def Fails : {α : Type} → Nesting V σ κ α → List (Option FailureId) → World V σ → Prop
  | _, signal id, baselines, world => world.thread.current = some id ∧ some id ∉ baselines
  | _, done _, _, _ => True
  | _, step act _ next, baselines, world =>
      ∀ value, (act world).1 = .ok value → (next value).Fails baselines (act world).2
  | _, within scope inner, baselines, world => inner.Fails baselines (scope.enter world).2
  | _, under _ _ inner, baselines, world => inner.Fails (world.thread.current :: baselines) world
  | _, call inner next, baselines, world =>
      inner.Fails baselines world ∧
        ∀ value, (inner.act run .returning world).1 = .ok (.ok value) →
          (next value).Fails baselines (inner.act run .returning world).2

variable {run}

theorem program (runs : ∀ key code, Program .all [] (run key code) fun _ => []) (style : Style)
    (nesting : Nesting V σ κ α) : Program .all [] (nesting.act run style) fun _ => [] := by
  induction nesting with
  | signal id =>
      cases style with
      | returning => exact .just _
      | unwinding => exact .raise id
  | done value => exact .just _
  | step act program next ih => exact .bind program ih
  | within scope inner ih => exact .during scope fun _ => ih
  | under context _ inner ih => exact .around trivial trivial (fun _ _ => trivial) runs ih
  | call inner next ih later =>
      rw [act]
      refine .bind ih fun ended => ?_
      cases ended with
      | ok value => exact later value
      | error id => exact .just _

end Nesting

section Guards

variable [Discreet V σ] {run : (key : Key V) → κ key → Act V σ key.Value} {world world' : World V σ}

theorem recordAll_current (payloads : List (Payload V)) (id : FailureId) :
    (recordAll payloads id world).2.thread.current = world.thread.current := by
  induction payloads generalizing world with
  | nil => rfl
  | cons payload rest ih =>
      have first := record_elsewhere (release_inert payload.key) payload.value id world
      exact Eq.trans (@ih (record payload.key payload.value id world).2) first.1

/-- Callbacks that look at what they may, return, and leave everything as it is. -/
structure Guard.Harmless (run : (key : Key V) → κ key → Act V σ key.Value) : Prop where
  program : ∀ key code, Program (.plain V σ) [] (run key code) fun _ => []
  still : ∀ key code world, ∃ value, run key code world = (.ok value, world)

theorem Guard.Harmless.fires (harmless : Guard.Harmless run) (context : Context V κ) (id : FailureId)
    (world : World V σ) :
    ∃ later, Guard.fire run context id world = (.ok (), later) ∧
      later.thread.current = world.thread.current := by
  cases context with
  | prepared payloads => exact ⟨_, rfl, recordAll_current payloads id⟩
  | deferred key code =>
      rw [Guard.fire_deferred]
      split
      · obtain ⟨value, returned⟩ := harmless.still key code world
        rw [bind_ok (by rw [returned]), returned]
        exact ⟨_, rfl, (record_elsewhere (release_inert key) value id world).1⟩
      · refine ⟨_, rfl, ?_⟩
        rw [noteStray_apply]
        split <;> rfl

/-- A guard that is older than the latest failure fires for it, whether or not there is an
unwinding. -/
theorem Guard.drop_older {guard : Guard V κ} {id : FailureId}
    (latest : world.thread.current = some id) (older : guard.baseline ≠ some id) :
    guard.drop run world = Guard.fire run guard.context id world := by
  have found : (quietly guard.target : Act V σ (Option FailureId)) world = (.ok (some id), world) := by
    have target : guard.target world = (some id, world) := by
      unfold Guard.target
      simp only [bind, StateT.bind, FailureId.current_apply, latest]
      rw [if_pos fun same => older same.symm]
      rfl
    unfold quietly
    rw [target]
  unfold Guard.drop
  rw [bind_ok (by rw [found]), found]

theorem leave_current (active : OpenScope V) (world : World V σ) :
    (active.leave world).2.thread.current = world.thread.current := by
  have closed : ∀ (keys : List (Key V)) (thread : Thread V),
      (thread.closeAll active.token keys).current = thread.current := by
    intro keys
    induction keys with
    | nil => exact fun _ => rfl
    | cons key rest ih => exact fun thread => ih _
  rw [leave_thread]
  exact closed _ _

end Guards

section Frames

variable [Discreet V σ] {run : (key : Key V) → κ key → Act V σ key.Value}

/-- How the two styles compare: either there was no failure, or it left all frames in both styles. -/
inductive Fares (baselines : List (Option FailureId)) :
    Except (Exit V) (Except FailureId α) × World V σ →
      Except (Exit V) (Except FailureId α) × World V σ → Prop
  | alike {ended : Except (Exit V) (Except FailureId α) × World V σ}
      (well : ∀ id, ended.1 ≠ .ok (.error id)) : Fares baselines ended ended
  | failed {id : FailureId} {world world' : World V σ} (matched : world.Matches world')
      (latest : world.thread.current = some id) (later : some id ∉ baselines) :
      Fares baselines (.ok (.error id), world) (.error (.unwinding (.unwound id)), world')

theorem Guard.Harmless.fires_alike (harmless : Guard.Harmless run) (unheeding : Unheeding V σ)
    {context : Context V κ} (apart : .thrown ∉ context.keys) (id : FailureId)
    {world world' : World V σ} (matched : world.Matches world') :
    ∃ later later', Guard.fire run context id world = (.ok (), later) ∧
      Guard.fire run context id world' = (.ok (), later') ∧ later.Matches later' ∧
      later.thread.current = world.thread.current := by
  have within : ∀ key ∈ context.keys, (Range.plain V σ).slot key := fun key listed same =>
    apart (same ▸ listed)
  have program : Program (.plain V σ) [] (Guard.fire run context id) fun _ => [] :=
    .fire (fun none => by cases none) within harmless.program id
  obtain ⟨later, fired, kept⟩ := harmless.fires context id world
  have ends := program.agrees_alone (aside unheeding) (i := ()) matched
  obtain ⟨fired', after⟩ := ends.returned (by rw [fired])
  refine ⟨later, (Guard.fire run context id world').2, fired, ?_, ?_, kept⟩
  · exact Prod.ext fired' rfl
  · rw [fired] at after
    exact after

variable {baselines : List (Option FailureId)} {inner inner' : Act V σ (Except FailureId β)}
  {world : World V σ}

theorem Fares.during (scope : Scope V)
    (inside : Fares baselines (inner (scope.enter world).2) (inner' (scope.enter world).2)) :
    Fares baselines (scope.during (fun _ => inner) world) (scope.during (fun _ => inner') world) := by
  rw [during_apply, during_apply]
  generalize inner (scope.enter world).2 = ended, inner' (scope.enter world).2 = ended' at inside
  cases inside with
  | alike well =>
      refine .alike fun id => ?_
      split
      · simp
      · exact well id
  | failed matched latest later =>
      exact .failed (matched.leave _) ((leave_current _ _).trans latest) later

theorem Fares.around (unheeding : Unheeding V σ) (harmless : Guard.Harmless run)
    {context : Context V κ} (apart : .thrown ∉ context.keys)
    (inside : Fares (world.thread.current :: baselines) (inner world) (inner' world)) :
    Fares baselines (Guard.around run context inner world)
      (Guard.around run context inner' world) := by
  rw [Guard.around_apply, Guard.around_apply, Act.ensuring_apply, Act.ensuring_apply]
  generalize inner world = ended, inner' world = ended' at inside
  cases inside with
  | alike well =>
      refine .alike fun id => ?_
      obtain ⟨(object | _) | value, after⟩ := ended <;> dsimp only
      · split <;> simp
      · simp
      · split
        · exact well id
        · simp
  | @failed id left left' matched latest later =>
      obtain ⟨own, others⟩ := List.ne_and_not_mem_of_not_mem_cons later
      obtain ⟨after, after', fired, fired', still, kept⟩ :=
        harmless.fires_alike unheeding apart id matched
      have dropped : (Guard.arm context world).1.drop run left = (.ok (), after) :=
        (Guard.drop_older latest own.symm).trans fired
      have dropped' : (Guard.arm context world).1.drop run left' = (.ok (), after') :=
        (Guard.drop_older (matched.current ▸ latest) own.symm).trans fired'
      dsimp only
      rw [dropped, dropped']
      exact .failed still (kept.trans latest) others

theorem Nesting.fares (unheeding : Unheeding V σ) (harmless : Guard.Harmless run)
    {nesting : Nesting V σ κ α} (fails : nesting.Fails run baselines world) :
    Fares baselines (nesting.act run .returning world) (nesting.act run .unwinding world) := by
  induction nesting generalizing baselines world with
  | signal id =>
      refine .failed ?_ fails.1 fails.2
      exact { World.Matches.refl world with host := Discreet.same.symm (Discreet.told _ _) }
  | done value => exact .alike fun id same => by cases same
  | step act program next ih =>
      rw [Nesting.act, Nesting.act]
      rcases ended : (act world).1 with exit | value
      · rw [bind_error ended, bind_error ended]
        exact .alike fun _ => by simp
      · rw [bind_ok ended, bind_ok ended]
        exact ih value (fails value ended)
  | within scope inner ih => exact .during scope (ih fails)
  | under context apart inner ih => exact .around unheeding harmless apart (ih fails)
  | call inner next ih later =>
      have inside := ih fails.1
      rw [Nesting.act, Nesting.act]
      generalize returning : inner.act run .returning world = ended,
        unwinding : inner.act run .unwinding world = ended' at inside
      cases inside with
      | alike well =>
          obtain ⟨exit | (id | value), after⟩ := ended
          · rw [bind_error (by rw [returning]), bind_error (by rw [unwinding]), returning, unwinding]
            exact .alike fun _ => by simp
          · exact absurd rfl (well id)
          · rw [bind_ok (by rw [returning]), bind_ok (by rw [unwinding]), unwinding, ← returning]
            exact later value (fails.2 value (by rw [returning]))
      | failed matched latest others =>
          rw [bind_ok (by rw [returning]), bind_error (by rw [unwinding]), returning, unwinding]
          exact .failed matched latest others

end Frames

section Blocks

variable [Discreet V σ] {world world' : World V σ}

theorem World.Matches.keep (matched : world.Matches world') (id : FailureId)
    (ready : (world'.thread.stack .thrown).isOpen = true ∨ world'.thread.stack .tally = .empty) :
    ((Thrown.unwound id).keep world').1 = id ∧
      world.Matches ((Thrown.unwound id).keep world').2 := by
  let told := (FaultRelay.emit (V := V) (.caught id) world').2
  have heard : world.Matches told :=
    { matched with host := Discreet.same.trans matched.host (Discreet.same.symm (Discreet.told _ _)) }
  have kept : (Thrown.unwound id).keep world' = (id, (record .thrown (.unwound id) id told).2) := rfl
  rw [kept, record_apply]
  refine ⟨rfl, ?_⟩
  have put := heard.setThrown ((told.thread.stack .thrown).put id.raw (.unwound id)).2
  rcases stack : told.thread.stack .thrown with ⟨_ | ⟨top, below⟩⟩
  · have tally : told.thread.stack .tally = .empty := by
      refine ready.resolve_left fun opened => ?_
      rw [show world'.thread.stack .thrown = _ from stack] at opened
      cases opened
    rw [put_closed stack]
    change world.Matches (noteStray .thrown id told).2
    have strayed : world.Matches (told.strayed .thrown id) :=
      { heard with host := Discreet.same.trans heard.host (Discreet.same.symm (Discreet.told _ _)) }
    have unmoved : (Slot.editTop .tally (countStray (Key.name (V := V) .thrown) id.raw)
        (told.strayed .thrown id)).2 = told.strayed .thrown id := by
      have same := Thread.setStack_self told.thread .tally
      rw [tally] at same
      rw [Slot.editTop, Slot.onStack_apply,
        show (told.strayed .thrown id).thread.stack .tally = .empty from tally]
      exact congrArg (fun thread : Thread V => { told.strayed .thrown id with thread }) same
    rw [noteStray_apply, unmoved, ite_self]
    exact strayed
  · rw [stack] at put
    rw [put_open stack]
    cases top.value? <;> exact put

theorem during_matches {scope : Scope V} {inside inside' : Act V σ ρ}
    (alike : (inside (scope.enter world).2).1 = (inside' (scope.enter world).2).1 ∧
      (inside (scope.enter world).2).2.Matches (inside' (scope.enter world).2).2) :
    (scope.during (fun _ => inside) world).1 = (scope.during (fun _ => inside') world).1 ∧
      (scope.during (fun _ => inside) world).2.Matches
        (scope.during (fun _ => inside') world).2 := by
  obtain ⟨same, matched⟩ := alike
  rw [during_apply, during_apply, ← same]
  split
  · exact ⟨rfl, matched⟩
  · exact ⟨rfl, matched.leave _⟩

def takeBoth (body : Act V σ (Except FailureId ρ)) : Act V σ (Except FailureId ρ) := do
  match ← body.attempt with
  | .ok ended => return ended
  | .error object => return .error (← quietly object.keep)

def TotalChain.proceed (total : TotalChain V σ ρ) : Except FailureId ρ → Act V σ ρ
  | .ok value => return value
  | .error id => total.dispatch id

theorem TotalChain.proceed_program {range : Range V σ} {total : TotalChain V σ ρ}
    (tallies : range.slot .tally) (within : total.chain.Within range)
    (ended : Except FailureId ρ) : Program range [] (total.proceed ended) fun _ => [] := by
  cases ended with
  | ok value => exact .just value
  | error id =>
      refine .bind (.dispatch tallies within id) fun outcome => ?_
      cases outcome with
      | handled value => exact .just value
      | unmatched id => exact .unwind _

section Taking

variable {body body' : Act V σ (Except FailureId ρ)} {total : TotalChain V σ ρ} {later : World V σ}

theorem catchBoth_take (body : Act V σ (Except FailureId ρ)) (total : TotalChain V σ ρ) :
    catchBoth body total =
      (Scope.catching total.chain).during fun _ => takeBoth body >>= total.proceed := by
  unfold catchBoth takeBoth
  congr 1
  funext _
  rw [bind_assoc]
  refine bind_congr fun ended => ?_
  rcases ended with object | (id | value)
  · simp only [bind_assoc]
    rfl
  · rfl
  · rfl

theorem takeBoth_congr (same : body world = body' world) :
    takeBoth body world = takeBoth body' world := by
  have attempts : body.attempt world = body'.attempt world := by
    unfold Act.attempt
    rw [same]
  exact bind_run_congr attempts _

theorem takeBoth_returned {ended : Except FailureId ρ} (returned : body world = (.ok ended, later)) :
    takeBoth body world = (.ok ended, later) := by
  have attempted : body.attempt world = (.ok (.ok ended), later) := by
    unfold Act.attempt
    rw [returned]
  unfold takeBoth
  rw [bind_ok (by rw [attempted]), attempted]
  rfl

theorem takeBoth_unwound {object : Thrown V}
    (unwound : body world = (.error (.unwinding object), later)) :
    takeBoth body world =
      (.ok (.error (object.keep later.stopped).1), (object.keep later.stopped).2) := by
  have attempted : body.attempt world = (.ok (.error object), later.stopped) := by
    rw [attempt_unwound (by rw [unwound]), unwound]
  unfold takeBoth
  rw [bind_ok (by rw [attempted]), attempted]
  rfl

theorem catchBoth_matches (unheeding : Unheeding V σ) (within : total.chain.Within (.plain V σ))
    (same : (takeBoth body ((Scope.catching total.chain).enter world).2).1 =
      (takeBoth body' ((Scope.catching total.chain).enter world).2).1)
    (matched : (takeBoth body ((Scope.catching total.chain).enter world).2).2.Matches
      (takeBoth body' ((Scope.catching total.chain).enter world).2).2) :
    (catchBoth body total world).1 = (catchBoth body' total world).1 ∧
      (catchBoth body total world).2.Matches (catchBoth body' total world).2 := by
  rw [catchBoth_take, catchBoth_take]
  refine during_matches ?_
  rcases ended : (takeBoth body ((Scope.catching total.chain).enter world).2).1 with exit | ended'
  · rw [bind_error ended, bind_error (same ▸ ended)]
    exact ⟨rfl, matched⟩
  · have proceeds := (total.proceed_program (fun none => by cases none) within ended').agrees_alone
      (aside unheeding) (i := ()) matched
    obtain ⟨_, after⟩ := proceeds.tied
    rw [bind_ok ended, bind_ok (same ▸ ended)]
    exact ⟨proceeds.1, after⟩

end Taking

variable {run : (key : Key V) → κ key → Act V σ key.Value}

/-- A block that takes both styles finds the same failure in either, with the same kept for it. -/
theorem Nesting.taken (tidy : Tidy V σ) (unheeding : Unheeding V σ)
    (harmless : Guard.Harmless run) {nesting : Nesting V σ κ ρ} (total : TotalChain V σ ρ)
    (fresh : world.thread.Fresh)
    (fails : nesting.Fails run [] ((Scope.catching total.chain).enter world).2) :
    let taken style := takeBoth (nesting.act run style) ((Scope.catching total.chain).enter world).2
    (taken .returning).1 = (taken .unwinding).1 ∧
      (taken .returning).2.Matches (taken .unwinding).2 := by
  intro taken
  let scope := Scope.catching total.chain
  have program := nesting.program (fun key code => (harmless.program key code).all) .unwinding
  have ready : (nesting.act run .unwinding (scope.enter world).2).1 ≠ .error .aborted →
      ((nesting.act run .unwinding (scope.enter world).2).2.thread.stack .thrown).isOpen = true ∨
        (nesting.act run .unwinding (scope.enter world).2).2.thread.stack .tally = .empty := by
    intro ended
    have outline := (program.owes_nothing tidy (fresh_enter scope fresh) ended).settled.1
    -- without storage the object is a stray for nobody; else the slot of the block is open
    by_cases gone : world.thread.store = none
    · refine .inr (Stack.outline_empty_iff.1 ?_)
      rw [outline, Thread.stack_gone ((enter_gone scope world).2 gone)]
    · refine .inl ?_
      rw [Stack.isOpen_eq_outline, outline, outline_enter scope fresh gone, if_pos]
      · rfl
      · exact thrown_catching total.chain
  have fares := Nesting.fares unheeding harmless fails
  generalize returning : nesting.act run .returning (scope.enter world).2 = ended,
    unwinding : nesting.act run .unwinding (scope.enter world).2 = ended' at fares
  cases fares with
  | alike =>
      have same : taken .returning = taken .unwinding :=
        takeBoth_congr (returning.trans unwinding.symm)
      rw [same]
      exact ⟨rfl, .refl _⟩
  | @failed id left left' matched latest =>
      have first : taken .returning = _ := takeBoth_returned returning
      have second : taken .unwinding = _ := takeBoth_unwound unwinding
      have stopped : left.Matches left'.stopped := { matched with }
      rw [unwinding] at ready
      obtain ⟨same, kept⟩ := stopped.keep id (ready (by simp))
      rw [first, second, same]
      exact ⟨rfl, kept⟩

/-- With the failure the latest of its thread, and later than the guards around it, it makes no
difference to a block that takes both styles in which of them its body signals. The same handler is
found and given the same, the result is the same, and in the end only thrown objects differ. -/
theorem both_styles_are_handled_alike (tidy : Tidy V σ) (unheeding : Unheeding V σ)
    (harmless : Guard.Harmless run) {nesting : Nesting V σ κ ρ} {total : TotalChain V σ ρ}
    (within : total.chain.Within (.plain V σ)) (fresh : world.thread.Fresh)
    (fails : nesting.Fails run [] ((Scope.catching total.chain).enter world).2) :
    let taken style := takeBoth (nesting.act run style) ((Scope.catching total.chain).enter world).2
    let block style := catchBoth (nesting.act run style) total
    (taken .returning).1 = (taken .unwinding).1 ∧
      (∀ id, total.chain.dispatch id = total.chain.select id >>= Outcome.respond ∧
        (total.chain.select id (taken .returning).2).1 =
          (total.chain.select id (taken .unwinding).2).1) ∧
      (block .returning world).1 = (block .unwinding world).1 ∧
      (block .returning world).2.Matches (block .unwinding world).2 := by
  obtain ⟨same, matched⟩ := Nesting.taken tidy unheeding harmless total fresh fails
  have selects := fun id => (Program.select (fun none => by cases none) within id).agrees_alone
    (aside unheeding) (i := ()) matched
  exact ⟨same, fun id => ⟨total.chain.dispatch_eq id, (selects id).1⟩,
    catchBoth_matches unheeding within same matched⟩

end Blocks

namespace Scenario

theorem diary_unheeding : Unheeding application Diary where
  declared _ _ _ _ matched := ⟨rfl, matched⟩
  available _ _ _ _ matched := ⟨rfl, matched⟩
  produced _ _ _ matched := ⟨rfl, matched⟩

def mishap : Nesting application Diary Key.Value Bool :=
  .under token (by simp [token, Context.keys, payload]) <| .within outerScope <|
    .step (quietly (newFailure [])) (.quiet (.newFailure trivial (by simp))) .signal

theorem keeping_harmless : Guard.Harmless fun (key : Key application) (value : key.Value) =>
    (pure value : Act application Diary key.Value) where
  program _ value := .just value
  still _ value _ := ⟨value, rfl⟩

/-- The mishap is heard with the code of the guard, in whichever style it is signalled. -/
theorem mishap_is_heard_in_both_styles :
    let block style := catchBoth (mishap.act (fun _ value => pure value) style) attentive morning
    (block .returning).1.toOption = some true ∧ (block .unwinding).1.toOption = some true ∧
      (block .returning).2.Matches (block .unwinding).2 := by
  have fails : mishap.Fails (fun _ value => pure value) []
      ((Scope.catching attentive.chain).enter morning).2 := by
    intro id made
    obtain rfl : FailureId.numbered 1 = id := Except.ok.inj made
    exact ⟨rfl, by decide⟩
  obtain ⟨-, -, same, matched⟩ := both_styles_are_handled_alike diary_tidy diary_unheeding
    keeping_harmless (attentive_within (by simp [Range.plain, Topic.ofKind])) Thread.fresh_fresh fails
  have heard : (catchBoth (mishap.act (fun _ value => pure value) .returning) attentive
      morning).1.toOption = some true := by decide +kernel
  exact ⟨heard, same ▸ heard, matched⟩

end Scenario

end FaultRelay

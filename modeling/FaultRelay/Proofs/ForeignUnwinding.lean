import FaultRelay.Proofs.Issuing
import FaultRelay.Proofs.Restoration

/-! How guards and a block agree on a failure that has no identity yet. An object that carries none
unwinds through guards. The first one promises the next identity of the thread, and those after it
share the promise, which outlasts whatever runs in between except a new failure. So the block that
stops the unwinding is issued the identity that the guards have recorded for, and what they recorded
comes down to its slots as the scopes on the way are left. -/
namespace FaultRelay

variable {V : Vocabulary} {σ α β ρ : Type}

section Courses

variable [Host V σ]

def Part (act : Act V σ α) : Prop := ∃ held left, Program .all held act left

theorem Part.advances (steady : Steady V σ) {act : Act V σ α} (part : Part act)
    (world : World V σ) : world.Advances (act world).2 := by
  obtain ⟨held, left, program⟩ := part
  let progress := steady.progress .all
  have start : progress.coupling.Ties world held world world := ⟨rfl, .refl world⟩
  obtain ⟨_, _, advances⟩ := (program.agrees_alone progress.coupling start).tied
  exact advances

theorem Guard.drop_part {κ : Key V → Type} {run : (key : Key V) → κ key → Act V σ key.Value}
    (runs : ∀ key code, Program .all [] (run key code) fun _ => []) (guard : Guard V κ) :
    Part (guard.drop run) :=
  ⟨[], fun _ => [], .drop trivial trivial (fun _ _ => trivial) runs⟩

/-- The run of `act` in `world` includes one of `inner` in `place`, on the same thread. What else it
includes are parts of programs. -/
inductive Includes : {α β : Type} → Act V σ α → World V σ → Act V σ β → World V σ → Prop
  | here {α : Type} (act : Act V σ α) (world : World V σ) : Includes act world act world
  | first {α β γ : Type} {act : Act V σ α} {next : α → Act V σ γ} {inner : Act V σ β}
      {world place : World V σ} (includes : Includes act world inner place)
      (rest : ∀ value, Part (next value)) : Includes (act >>= next) world inner place
  | second {α β γ : Type} {act : Act V σ α} {next : α → Act V σ γ} {inner : Act V σ β}
      {world place : World V σ} {value : α} (part : Part act)
      (returned : (act world).1 = .ok value)
      (includes : Includes (next value) (act world).2 inner place) :
      Includes (act >>= next) world inner place
  | attempt {α β : Type} {act : Act V σ α} {inner : Act V σ β} {world place : World V σ}
      (includes : Includes act world inner place) : Includes act.attempt world inner place
  | cleanup {α β : Type} {act : Act V σ α} {clean : Act V σ Unit} {inner : Act V σ β}
      {world place : World V σ} (includes : Includes act world inner place)
      (cleaning : Part clean) : Includes (act.onUnwinding clean) world inner place
  | lend {α β : Type} {key : Key V} {id : Nat} {use : key.Value → Act V σ α} {value : key.Value}
      {inner : Act V σ β} {world place : World V σ}
      (held : (world.thread.stack key).valueFor id = some value)
      (includes : Includes (use value) (Slot.takeFor key id world).2 inner place) :
      Includes (Slot.lend key id use) world inner place

namespace Includes

variable {act : Act V σ α} {inner : Act V σ β} {world place : World V σ}

theorem ensuring {after : Act V σ Unit} (includes : Includes act world inner place)
    (cleaning : Part after) : Includes (act.ensuring after) world inner place := by
  refine .first (.cleanup includes cleaning) fun value => ?_
  obtain ⟨held, left, program⟩ := cleaning
  exact ⟨held, fun _ => left (), .bind program fun _ => .just value⟩

theorem during {scope : Scope V} {body : OpenScope V → Act V σ α}
    (includes : Includes (body (scope.enter world).1) (scope.enter world).2 inner place) :
    Includes (scope.during body) world inner place :=
  .second ⟨[], _, .enter scope⟩ rfl
    (includes.ensuring ⟨_, _, @Program.leave _ _ _ _ [] (scope.enter world).1⟩)

theorem around {κ : Key V → Type} {run : (key : Key V) → κ key → Act V σ key.Value}
    (runs : ∀ key code, Program .all [] (run key code) fun _ => []) (context : Context V κ)
    (includes : Includes act world inner place) :
    Includes (Guard.around run context act) world inner place :=
  .second ⟨[], _, .quiet (.arm trivial context)⟩ rfl (includes.ensuring (Guard.drop_part runs _))

variable (steady : Steady V σ)
include steady

theorem until_start (includes : Includes act world inner place) : world.Advances place := by
  induction includes with
  | here => exact .refl _
  | first _ _ ih => exact ih
  | second part _ _ ih => exact (part.advances steady _).trans ih
  | attempt _ ih => exact ih
  | cleanup _ _ ih => exact ih
  | @lend _ _ key id _ _ _ world _ _ _ ih =>
      exact World.Advances.trans (Calm.onStack _ world).1 ih

theorem from_end (includes : Includes act world inner place) :
    (inner place).2.Advances (act world).2 := by
  -- on the way up only cleanups and later parts run, all of which advance
  induction includes with
  | here => exact .refl _
  | @first _ _ _ act next _ world _ _ rest ih =>
      rcases ended : (act world).1 with exit | value
      · rw [bind_error ended]
        exact ih
      · rw [bind_ok ended]
        exact ih.trans ((rest value).advances steady _)
  | second _ returned _ ih =>
      rw [bind_ok returned]
      exact ih
  | @attempt _ _ act _ world _ _ ih =>
      refine ih.trans ?_
      unfold Act.attempt
      rcases act world with ⟨(object | _) | value, later⟩
      · exact .aside rfl rfl rfl id
      · exact .refl _
      · exact .refl _
  | @cleanup _ _ act clean _ world _ _ cleaning ih =>
      rcases ended : (act world).1 with (object | _) | value
      · rw [onUnwinding_cleanup ended]
        exact ih.trans (cleaning.advances steady _)
      · rw [onUnwinding_passed (by simp [ended])]
        exact ih
      · rw [onUnwinding_passed (by simp [ended])]
        exact ih
  | @lend _ _ key id use value _ world _ held _ ih =>
      obtain ⟨top, innermost⟩ := top_of_valueFor held
      have back := fun world => (Calm.restore steady key top.owner id value world).1
      rw [lend_apply innermost held, map_apply, ensuring_quietly_apply]
      rcases ended : (use value (Slot.takeFor key id world).2).1 with (object | _) | answer
      · exact ih.trans (back _)
      · exact ih
      · exact ih.trans (back _)

end Includes

end Courses

section Promises

variable [Host V σ] {κ : Key V → Type} {run : (key : Key V) → κ key → Act V σ key.Value}
  {context : Context V κ} {inner : Act V σ β} {before later : World V σ}

/-- A guard is made around `inner` in a thread that is not unwinding, and an unwinding passes it. From
then until `later` the thread is issued no identity. -/
structure Guard.Crossed (inner : Act V σ β) (before later : World V σ) : Prop where
  part : Part inner
  calm : before.thread.unwindings = 0
  unwound : ∃ object, (inner before).1 = .error (.unwinding object)
  /-- Identities ascend, so this is to say that none was issued. -/
  unissued : later.thread.current = before.thread.current

omit [Host V σ] in
theorem upcoming_congr {τ : Type} {world : World V σ} {world' : World V τ}
    (drawn : world.process.drawn = world'.process.drawn)
    (reserved : world.thread.reserved = world'.thread.reserved) :
    (FailureId.upcoming world).1 = (FailureId.upcoming world').1 ∧
      (FailureId.upcoming world).2.process.drawn = (FailureId.upcoming world').2.process.drawn := by
  rcases promised : world.thread.reserved with _ | id
  · rw [FailureId.upcoming_unreserved promised,
      FailureId.upcoming_unreserved (reserved.symm.trans promised)]
    simp [FailureId.draw, drawn]
  · rw [FailureId.upcoming_reserved promised,
      FailureId.upcoming_reserved (reserved.symm.trans promised)]
    exact ⟨rfl, drawn⟩

theorem Guard.around_leaves {object : Thrown V}
    (unwound : (inner before).1 = .error (.unwinding object)) :
    (around run context inner before).2 =
      ((arm context before).1.drop run (inner before).2).2 := by
  rw [around_apply, Act.ensuring_apply]
  rcases ended : inner before with ⟨_ | _, later⟩ <;> rw [ended] at unwound <;> cases unwound
  dsimp only
  split <;> simp [*]

section Crossing

variable (steady : Steady V σ) (runs : ∀ key code, Program .all [] (run key code) fun _ => [])
include steady

theorem Guard.Crossed.still (crossed : Guard.Crossed inner before later) (orderly : before.Orderly)
    (goes : (inner before).2.Advances later) :
    (inner before).2.thread.current = before.thread.current :=
  ((crossed.part.advances steady before).unissued goes orderly crossed.unissued).1

theorem Guard.Crossed.fires (crossed : Guard.Crossed inner before later) (orderly : before.Orderly)
    (goes : (inner before).2.Advances later) :
    (arm context before).1.drop run (inner before).2 =
      fire run context (FailureId.upcoming (inner before).2).1
        (FailureId.reserve (inner before).2).2 := by
  have still := crossed.still steady orderly goes
  obtain ⟨object, unwound⟩ := crossed.unwound
  obtain ⟨held, left, program⟩ := crossed.part
  have counted := program.counted steady before
  rw [Counted, unwound] at counted
  have unwinding : 0 < (inner before).2.thread.unwindings := by
    rw [show (inner before).2.thread.unwindings = before.thread.unwindings + 1 from counted]
    exact Nat.succ_pos _
  have calm : (arm context before).1.wasUnwinding = false := by
    change decide (0 < before.thread.unwindings) = false
    rw [crossed.calm]
    rfl
  rw [drop_unwinding calm unwinding fun none => still.symm.trans none]
  change fire run context (sees before.thread.current _) (looked before.thread.current _) = _
  rw [sees, looked, if_pos still, if_pos still]

include runs

theorem Guard.Crossed.passes (crossed : Guard.Crossed inner before later)
    (goes : (around run context inner before).2.Advances later) :
    (inner before).2.Advances later := by
  obtain ⟨object, unwound⟩ := crossed.unwound
  rw [around_leaves unwound] at goes
  exact ((drop_part runs _).advances steady _).trans goes

/-- The promise that the guard has made or shared stands until `later`. -/
theorem Guard.Crossed.agrees (crossed : Guard.Crossed inner before later)
    (orderly : before.Orderly) (goes : (around run context inner before).2.Advances later) :
    (FailureId.upcoming (inner before).2).1 = (FailureId.upcoming later).1 := by
  obtain ⟨object, unwound⟩ := crossed.unwound
  have fires : Part (fire run context (FailureId.upcoming (inner before).2).1) :=
    ⟨[], _, .fire trivial (fun _ _ => trivial) runs _⟩
  have dropped : (arm context before).1.drop run (inner before).2 = _ :=
    crossed.fires steady orderly (crossed.passes steady runs goes)
  rw [around_leaves unwound, dropped] at goes
  have promises := (crossed.part.advances steady before).trans (reserve_advances (inner before).2)
  have stands := promises.unissued ((fires.advances steady _).trans goes) orderly crossed.unissued
  have promised : later.thread.reserved = some (FailureId.upcoming (inner before).2).1 :=
    stands.2 _ rfl
  rw [FailureId.upcoming_reserved promised]

variable {body : Act V σ α} {entered : World V σ}

/-- Whatever else the body does, the guard fires for the identity that comes up in the end. -/
theorem Guard.Crossed.fires_in (crossed : Guard.Crossed inner before (body entered).2)
    (includes : Includes body entered (around run context inner) before) (orderly : entered.Orderly) :
    (arm context before).1.drop run (inner before).2 =
      fire run context (FailureId.upcoming (body entered).2).1
        (FailureId.reserve (inner before).2).2 := by
  have orderly := (includes.until_start steady).orderly orderly
  have goes := includes.from_end steady
  rw [← crossed.agrees steady runs orderly goes]
  exact crossed.fires steady orderly (crossed.passes steady runs goes)

omit runs in
theorem Guard.Crossed.alive (crossed : Guard.Crossed inner before later)
    (includes : Includes body entered (around run context inner) before)
    (alive : (FailureId.reserve (inner before).2).2.thread.store ≠ none) :
    entered.thread.store ≠ none := fun gone =>
  have there := (includes.until_start steady).gone gone
  alive ((reserve_advances _).gone ((crossed.part.advances steady before).gone there))

end Crossing

end Promises

section Keeping

variable [Host V σ] {object : Thrown V}

theorem keep_foreign (foreign : object.carried? = none) (world : World V σ) :
    (object.keep world).1 = (FailureId.upcoming world).1 ∧
      (object.keep world).2.thread.current = some (FailureId.upcoming world).1 ∧
      (object.keep world).2.thread.reserved = none ∧
      ((world.thread.stack .thrown).isOpen = true → ∀ key ≠ .thrown,
        (object.keep world).2.thread.stack key = world.thread.stack key) := by
  let id := (FailureId.upcoming world).1
  let told := (emit (V := V) (.caught id) (FailureId.mint world).2).2
  have kept : object.keep world = (id, (record .thrown object id told).2) := by
    unfold Thrown.keep Thrown.identify
    rw [foreign]
    rfl
  have frames : ∀ key, told.thread.stack key = world.thread.stack key := fun key => by
    have thread := FailureId.upcoming_thread world
    change ((FailureId.mint world).2.thread.stack key) = _
    rw [FailureId.mint_apply, thread]
    rfl
  obtain ⟨current, reserved, beside⟩ :=
    @record_elsewhere _ _ _ .thrown (fun _ => rfl) object id told
  rw [kept]
  refine ⟨rfl, current, reserved, fun opened key differ => ?_⟩
  rw [← frames] at opened
  exact (beside key differ (.inr opened)).trans (frames key)

end Keeping

section Contexts

variable [Host V σ] {κ : Key V → Type} {run : (key : Key V) → κ key → Act V σ key.Value}

/-- Firing for `id` in `world` records `value`; in `moment` it has just been put in its slot. -/
inductive Guard.Records (run : (key : Key V) → κ key → Act V σ key.Value) (id : FailureId) :
    Context V κ → World V σ → (key : Key V) → key.Value → World V σ → Prop
  | prepared {earlier later : List (Payload V)} {world moment : World V σ} {key : Key V}
      {value : key.Value} {previous : Option key.Value}
      (stored : Slot.put key id.raw value (recordAll earlier id world).2 =
        (.stored previous, moment)) :
      Records run id (.prepared (earlier ++ ⟨key, value⟩ :: later)) world key value moment
  | deferred {key : Key V} {code : κ key} {world moment : World V σ} {value : key.Value}
      {previous : Option key.Value} (opened : (world.thread.stack key).isOpen = true)
      (returned : (run key code world).1 = .ok value)
      (stored : Slot.put key id.raw value (run key code world).2 = (.stored previous, moment)) :
      Records run id (.deferred key code) world key value moment

omit [Host V σ] in
theorem put_stored {key : Key V} {tag : Nat} {value : key.Value} {previous : Option key.Value}
    {world moment : World V σ}
    (stored : Slot.put key tag value world = (.stored previous, moment)) :
    world.thread.store ≠ none ∧ ∃ top below,
      (moment.thread.stack key).frames = top :: below ∧ top.held = some (tag, value) := by
  rcases stack : world.thread.stack key with ⟨_ | ⟨top, below⟩⟩
  · rw [put_closed stack] at stored
    cases stored
  · have alive : world.thread.store ≠ none := Thread.alive_of_frames (by rw [stack]; simp)
    rw [put_open stack] at stored
    obtain rfl : _ = moment := congrArg Prod.snd stored
    refine ⟨alive, top.put tag value, below, ?_, rfl⟩
    exact congrArg Stack.frames (Thread.stack_setStack alive key _)

theorem recordAll_append (earlier later : List (Payload V)) (id : FailureId) (world : World V σ) :
    recordAll (earlier ++ later) id world = recordAll later id (recordAll earlier id world).2 := by
  induction earlier generalizing world with
  | nil => rfl
  | cons payload rest ih => exact ih _

/-- Firing goes on from that moment: a value that was there before ends, and what else the guard has
is recorded. -/
theorem Guard.Records.goes_on {id : FailureId} {context : Context V κ} {key : Key V}
    {value : key.Value} {world moment : World V σ}
    (records : Guard.Records run id context world key value moment) :
    ∃ (previous : Option key.Value) (later : List (Payload V)),
      Guard.fire run context id world =
        (.ok (), (recordAll later id (previous.forM (release key) moment).2).2) := by
  have recorded : ∀ {spot : World V σ} {previous : Option key.Value},
      Slot.put key id.raw value spot = (.stored previous, moment) →
        (record key value id spot).2 = (previous.forM (release key) moment).2 := by
    intro spot previous stored
    rw [record_apply, stored]
    cases previous <;> rfl
  cases records with
  | @prepared earlier later _ _ _ _ previous stored =>
      have split := recordAll_append earlier (⟨key, value⟩ :: later) id world
      refine ⟨previous, later, ?_⟩
      rw [← recorded stored]
      exact congrArg (fun run : Unit × World V σ => (Except.ok run.1, run.2)) split
  | @deferred _ code _ _ _ previous opened returned stored =>
      refine ⟨previous, [], ?_⟩
      rw [Guard.fire_deferred, if_pos opened, bind_ok returned, ← recorded stored]
      rfl

theorem Guard.Records.stored (steady : Steady V σ)
    (runs : ∀ key code, Program .all [] (run key code) fun _ => []) {id : FailureId}
    {context : Context V κ} {key : Key V} {value : key.Value} {world moment : World V σ}
    (records : Guard.Records run id context world key value moment) :
    world.thread.store ≠ none ∧ ∃ top below,
      (moment.thread.stack key).frames = top :: below ∧ top.held = some (id.raw, value) := by
  cases records with
  | @prepared earlier _ _ _ _ _ _ stored =>
      have routine : Routine .all (recordAll earlier id : Quiet V σ Unit) :=
        .recordAll trivial (fun _ _ => trivial) id
      obtain ⟨alive, held⟩ := put_stored stored
      exact ⟨fun gone => alive ((Calm.routine steady routine world).1.gone gone), held⟩
  | @deferred _ code _ _ _ _ _ _ stored =>
      obtain ⟨alive, held⟩ := put_stored stored
      have part : Part (run key code) := ⟨[], _, runs key code⟩
      exact ⟨fun gone => alive ((part.advances steady world).gone gone), held⟩

end Contexts

section Blocks

variable [Host V σ] {κ : Key V → Type} {run : (key : Key V) → κ key → Act V σ key.Value}
  {body : Act V σ α} {settle : α → Act V σ ρ} {total : TotalChain V σ ρ}
  {world entered : World V σ} {active : OpenScope V} {object : Thrown V}

section Slots

variable (tidy : Tidy V σ) (leaves : Program .all [] body fun _ => [])
  (fresh : world.thread.Fresh)
  (enters : (Scope.catching total.chain).enter world = (active, entered))
  (alive : entered.thread.store ≠ none) (ended : (body entered).1 ≠ .error .aborted)
include tidy leaves fresh enters alive ended

/-- When the body is left, the frame of the block is the innermost again in each of its slots. -/
theorem innermost_again {key : Key V} (listed : key ∈ active.interest.keys) :
    ∃ top below, ((body entered).2.thread.stack key).frames = top :: below ∧
      top.owner = active.token ∧ active.token ∉ below.map Frame.owner := by
  let scope := Scope.catching total.chain
  have opened : active = ⟨scope.interest, .numbered (world.thread.lastToken + 1),
      scope.interest.tallies⟩ := by
    rw [enter_apply] at enters
    exact (congrArg Prod.fst enters).symm
  have inside : entered = (scope.enter world).2 := (congrArg Prod.snd enters).symm
  subst opened inside
  have before : world.thread.store ≠ none := fun gone => alive ((enter_gone scope world).2 gone)
  have outline := (leaves.owes_nothing tidy (fresh_enter scope fresh) ended).settled.1 key
  rw [outline_enter scope fresh before, if_pos listed] at outline
  obtain ⟨top, below, frames, entry, rest⟩ := List.map_eq_cons_iff.1 outline
  refine ⟨top, below, frames, congrArg Prod.fst entry, fun again => ?_⟩
  obtain ⟨frame, deeper, same⟩ := List.mem_map.1 again
  have older : (frame.owner, frame.refs) ∈ (world.thread.stack key).outline :=
    rest ▸ List.mem_map_of_mem deeper
  have bound := fresh key _ older _ same
  omega

theorem thrown_open : ((body entered).2.thread.stack .thrown).isOpen = true := by
  have wanted : .thrown ∈ active.interest.keys := by
    have interest := congrArg (fun opened => opened.1.interest) enters
    rw [enter_apply] at interest
    exact interest ▸ thrown_catching total.chain
  obtain ⟨_, _, frames, _⟩ := innermost_again tidy leaves fresh enters alive ended wanted
  rw [Stack.isOpen, frames]
  rfl

end Slots

/-- An object that carries no identity unwinds to the block. The block dispatches the identity that
comes up then, which is the current one now; no other is promised. Short of 2 ^ 30 identities it was
never issued before, on whatever thread, and those known so far are what the counter gave. Every guard
has fired for it that an unwinding passed since the thread was issued its last identity. Firing puts
each value in its slot and goes on from there. What a guard recorded is found in the slot of the
block, even if it was put in another, as long as that type was neither recorded nor taken any more:
scopes only opened and closed it. -/
theorem guards_record_for_the_failure_dispatched (tidy : Tidy V σ) (steady : Steady V σ)
    (runs : ∀ key code, Program .all [] (run key code) fun _ => [])
    (leaves : Program .all [] body fun _ => []) (fresh : world.thread.Fresh)
    (orderly : world.Orderly)
    (enters : (Scope.catching total.chain).enter world = (active, entered))
    (unwound : (body entered).1 = .error (.unwinding object)) (foreign : object.carried? = none) :
    let reached := (body entered).2
    let id := (FailureId.upcoming reached).1
    ∃ heard : World V σ,
      catching settle body total world =
        (total.dispatch id).ensuring (quietly active.leave) heard ∧
      heard.thread.current = some id ∧ heard.thread.reserved = none ∧
      (∀ {τ : Type} [DecidableEq τ] {ids : List FailureId} {crowd : Crowd V τ} (t : τ),
        Issues ids crowd → crowd.process = reached.process → crowd.threads t = reached.thread →
          (FailureId.upcoming reached).2.process.drawn < 2 ^ 30 →
            id ∉ ids ∧ ∀ known ∈ id :: ids, known.raw = (FailureId.counted known.number).toNat) ∧
      ∀ {β : Type} {context : Context V κ} {inner : Act V σ β} {before : World V σ},
        Includes body entered (Guard.around run context inner) before →
        Guard.Crossed inner before reached →
          let fires := (FailureId.reserve (inner before).2).2
          (Guard.arm context before).1.drop run (inner before).2 = Guard.fire run context id fires ∧
          ∀ (key : Key V) (value : key.Value) (moment : World V σ),
            Guard.Records run id context fires key value moment →
              (∃ (previous : Option key.Value) (later : List (Payload V)),
                Guard.fire run context id fires =
                  (.ok (), (recordAll later id (previous.forM (release key) moment).2).2)) ∧
              (key ∈ active.interest.keys → key ≠ .thrown →
                Stack.Reframed active.token (moment.thread.stack key) (reached.thread.stack key) →
                  (heard.thread.stack key).valueFor id.raw = some value) := by
  intro reached id
  have caught : catching settle body total world = _ := catching_apply (by rw [enters]; exact unwound)
  obtain ⟨same, current, reserved, beside⟩ := keep_foreign foreign reached.stopped
  have agrees : (FailureId.upcoming reached.stopped).1 = id ∧ _ := upcoming_congr rfl rfl
  rw [agrees.1] at same current
  rw [enters, same] at caught
  refine ⟨(object.keep reached.stopped).2, caught, current, reserved, ?_, ?_⟩
  · intro τ _ ids crowd t issues process thread room
    obtain ⟨same, drawn⟩ : (FailureId.upcoming (crowd.world t)).1 = id ∧ _ :=
      upcoming_congr (congrArg Process.drawn process) (congrArg Thread.reserved thread)
    have accounts := issues.accounts
    have bound := accounts.upcoming_bound t
    rw [same, drawn] at bound
    refine ⟨same ▸ accounts.fresh t, fun known listed => ?_⟩
    have early : known.number < 2 ^ 30 := by
      rcases List.mem_cons.1 listed with rfl | issued
      · exact bound.trans_lt room
      · have earlier := (accounts.issued known issued).trans (upcoming_drawn (crowd.world t))
        exact (drawn ▸ earlier).trans_lt room
    exact known.raw_eq_counted (show 4 * known.number < 4294967296 by omega)
  intro β context inner before includes crossed
  have start : entered.Orderly := by
    have advances := (Calm.enter (Scope.catching total.chain) world).1
    rw [enters] at advances
    exact advances.orderly orderly
  refine ⟨crossed.fires_in steady runs includes start, fun key value moment records => ?_⟩
  refine ⟨records.goes_on, fun listed differ reframed => ?_⟩
  have alive := crossed.alive steady includes (records.stored steady runs).1
  have ended : (body entered).1 ≠ .error .aborted := by rw [unwound]; simp
  obtain ⟨top, below, frames, own, once⟩ := innermost_again tidy leaves fresh enters alive ended listed
  obtain ⟨_, top', below', frames', held⟩ := records.stored steady runs
  rw [beside (thrown_open tidy leaves fresh enters alive ended) key differ]
  have brought := Stack.Brought.down reframed frames own once
  exact (brought.valueFor (congrArg List.head? frames') held id.raw).trans (if_pos rfl)

end Blocks

namespace Scenario

theorem diary_steady : Steady application Diary where
  destroy _ _ _ := ⟨.refl _, rfl⟩
  declared _ _ _ := ⟨.refl _, rfl⟩
  available _ _ _ := ⟨.refl _, rfl⟩
  produced _ _ := ⟨.refl _, rfl⟩

def noon : World application Diary := { morning with process.drawn := 1 }

def flagged : Context application fun key => key.Value := .prepared [payload .flag true]

/-- Falls through two guards. The inner one finds a slot that the block never sees. -/
def fall : Act application Diary Bool :=
  Guard.around (fun _ value => pure value) flagged <|
    outerScope.during fun _ => under (Act.unwind (.message "out of reach"))

/-- The block and both guards mean the second failure, while another thread was issued the first. The
code comes down to the block. -/
theorem fall_is_one_failure :
    let entered := ((Scope.catching attentive.chain).enter noon).2
    ∃ heard : World application Diary,
      catchUnwinding fall attentive noon =
        (attentive.dispatch (.numbered 2)).ensuring
          (quietly ((Scope.catching attentive.chain).enter noon).1.leave) heard ∧
      heard.thread.current = some (.numbered 2) ∧
      (∃ ids, ∃ crowd : Crowd application Bool, Issues ids crowd ∧
        crowd.threads false = (fall entered).2.thread ∧
        FailureId.numbered 1 ∈ ids ∧ FailureId.numbered 2 ∉ ids) ∧
      (heard.thread.stack (Topic.ofKind .code)).valueFor (FailureId.numbered 2).raw =
        some (7 : Int) := by
  intro entered
  let run := fun (key : Key application) (value : key.Value) =>
    (pure value : Act application Diary key.Value)
  let code : Key application := Topic.ofKind .code
  let before := (outerScope.enter entered).2
  let inner : Act application Diary Bool := Act.unwind (.message "out of reach")
  let spot := (FailureId.reserve (inner before).2).2
  let moment := (Slot.put code (FailureId.numbered 2).raw (7 : Int) spot).2
  have runs : ∀ key code, Program .all [] (run key code) fun _ => [] := fun _ value => .just value
  have leaves : Program .all [] fall fun _ => [] :=
    .around trivial trivial (fun _ _ => trivial) runs <| .during _ fun _ =>
      .around trivial trivial (fun _ _ => trivial) runs (.unwind _)
  have orderly : noon.Orderly := noon.started_orderly
  obtain ⟨heard, caught, current, -, unissued, guards⟩ : ∃ heard : World application Diary,
      catching pure fall attentive noon = _ ∧ _ :=
    guards_record_for_the_failure_dispatched diary_tidy diary_steady runs leaves
      Thread.fresh_fresh orderly rfl rfl rfl
  have issues : Issues [.numbered 1] (⟨(fall entered).2.process, fun other =>
      if other then (FailureId.mint morning).2.thread else (fall entered).2.thread⟩ :
        Crowd application Bool) := by
    let start : Crowd application Bool := ⟨morning.process, fun _ => .fresh application⟩
    have started : Issues [] start := .start fun _ => rfl
    have promised : Issues [.numbered 1] _ := .reserve false (.mint true started)
    refine .other ?_ (fun other => ?_) promised
    · rfl
    · cases other <;> exact .inl rfl
  have includes : Includes fall entered (Guard.around run token inner) before :=
    .around runs flagged (.during (.here _ _))
  have crossed : Guard.Crossed inner before (fall entered).2 :=
    ⟨⟨[], fun _ => [], .unwind _⟩, rfl, ⟨_, rfl⟩, rfl⟩
  have records : Guard.Records run (.numbered 2) (.prepared ([] ++ ⟨code, (7 : Int)⟩ :: [])) spot
      code (7 : Int) moment := .prepared rfl
  have reframed : Stack.Reframed ((Scope.catching attentive.chain).enter noon).1.token
      (moment.thread.stack code) ((moment.thread.stack code).close (.numbered 2)).2 :=
    .closed (by decide) (.refl _)
  have room : (FailureId.upcoming (fall entered).2).2.process.drawn < 2 ^ 30 := by decide +kernel
  obtain ⟨new, -⟩ := unissued false issues rfl rfl room
  refine ⟨heard, caught, current, ⟨_, _, issues, rfl, by simp, new⟩, ?_⟩
  exact ((guards includes crossed).2 code (7 : Int) moment records).2 (by decide)
    (by simp [code, Topic.ofKind]) reframed

end Scenario

end FaultRelay

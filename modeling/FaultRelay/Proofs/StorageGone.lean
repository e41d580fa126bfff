import FaultRelay.Proofs.Errand
import FaultRelay.Proofs.Totality

/-! A thread whose storage is gone. There every operation behaves as if nothing were open, and storage
never comes back; so an errand does there what its bare reading says. One lemma for each operation and
each way of combining them says so, and the errand follows by induction. -/
namespace FaultRelay

variable {V : Vocabulary} {σ α β ρ : Type}

structure Quiet.Degrades (act rest : Quiet V σ α) : Prop where
  same : ∀ world, world.thread.store = none → act world = rest world
  gone : ∀ world, world.thread.store = none → (act world).2.thread.store = none

/-- How a run without storage ended, and how it should. Storage did not come back, no unwinding left
code that ran because of another one, and what unwinds was thrown. -/
structure Lapsed (throws : Thrown V → Prop) (ended rest : Except (Exit V) α × World V σ) :
    Prop where
  same : ended = rest
  gone : ended.2.thread.store = none
  whole : ended.1 ≠ .error .aborted
  thrown : ∀ object, ended.1 = .error (.unwinding object) → throws object

def Act.Degrades (throws : Thrown V → Prop) (act rest : Act V σ α) : Prop :=
  ∀ world, world.thread.store = none → Lapsed throws (act world) (rest world)

/-- The operation is about other parts of the thread than its storage. -/
def Quiet.IgnoresStorage (act : Quiet V σ α) : Prop :=
  ∀ (world : World V σ) (store : Option (Store V)),
    act { world with thread.store := store } =
      ((act world).1, { (act world).2 with thread.store := store })

namespace Quiet.Degrades

theorem still {act : Quiet V σ α}
    (gone : ∀ world, world.thread.store = none → (act world).2.thread.store = none) :
    Degrades act act :=
  ⟨fun _ _ => rfl, gone⟩

theorem idle {act : Quiet V σ α} {value : α}
    (same : ∀ world, world.thread.store = none → act world = (value, world)) :
    Degrades act (pure value) where
  same := same
  gone world gone := by rw [same world gone, gone]

theorem seq {act rest : Quiet V σ α} {next next' : α → Quiet V σ β} (first : Degrades act rest)
    (later : ∀ value, Degrades (next value) (next' value)) :
    Degrades (act >>= next) (rest >>= next') where
  same world gone := by
    change next (act world).1 (act world).2 = next' (rest world).1 (rest world).2
    rw [← first.same world gone]
    exact (later _).same _ (first.gone world gone)
  gone world gone := (later _).gone _ (first.gone world gone)

theorem forM {action action' : β → Quiet V σ Unit}
    (each : ∀ item, Degrades (action item) (action' item)) (items : List β) :
    Degrades (items.forM action) (items.forM action') := by
  induction items with
  | nil => exact still fun _ gone => gone
  | cons item rest ih => exact seq (each item) fun _ => ih

end Quiet.Degrades

namespace Slot

variable {world : World V σ} (gone : world.thread.store = none) (key : Key V)
include gone

theorem onStack_gone (change : Stack key.Value → β × Stack key.Value) :
    onStack key change world = ((change .empty).1, world) := by
  rw [onStack_apply, Thread.stack_gone gone, Thread.setStack_gone gone]

theorem look_gone (look : Stack key.Value → β) :
    (return look (← stack key) : Quiet V σ β) world = (look .empty, world) := by
  change (look (world.thread.stack key), world) = _
  rw [Thread.stack_gone gone]

theorem openFor_gone (owner : Token) : openFor key owner world = (0, world) := by
  rw [openFor_apply, Thread.setStack_gone gone, Thread.stack_gone gone]
  rfl

theorem lend_gone [Host V σ] (id : Nat) (use : key.Value → Act V σ α) :
    lend key id use world = (.ok none, world) :=
  lendNothing_apply (by rw [Thread.stack_gone gone]; rfl)

omit key in
theorem endStorage_gone [Host V σ] : (endStorage world : Unit × World V σ) = ((), world) := by
  obtain ⟨process, ⟨store, lastToken, tallying, current, reserved, unwindings⟩, host⟩ := world
  cases gone
  rfl

end Slot

section Operations

variable [Host V σ]

theorem closeSlot_gone {world : World V σ} (gone : world.thread.store = none) (owner : Token)
    (key : Key V) : Scope.closeSlot owner key world = ((), world) := by
  have closed : Slot.close key owner world = (.notOpen, world) := Slot.onStack_gone gone key _
  unfold Scope.closeSlot
  simp only [bind, StateT.bind, closed]
  rfl

omit [Host V σ] in
theorem collect_gone {world : World V σ} (gone : world.thread.store = none) (id : FailureId)
    (keys : List (Key V)) : Parcel.collect id keys world = ([], world) := by
  induction keys with
  | nil => rfl
  | cons key rest ih =>
      have taken : Slot.takeFor key id.raw world = (none, world) := Slot.onStack_gone gone key _
      unfold Parcel.collect
      simp only [bind, StateT.bind, taken, ih]
      rfl

theorem noteStray_gone (key : Key V) (id : FailureId) :
    Quiet.Degrades (noteStray key id : Quiet V σ Unit) (Bare.miss key id) := by
  have missed (world : World V σ) : Bare.miss key id world = ((), world.strayed key id) := by
    obtain ⟨⟨drawn, settings, environment⟩, thread, host⟩ := world
    cases settings <;> rfl
  have same (world : World V σ) (gone : world.thread.store = none) :
      noteStray key id world = ((), world.strayed key id) := by
    have untouched : (world.strayed key id).thread.store = none := gone
    rw [noteStray_apply, Slot.editTop, Slot.onStack_gone untouched, ite_self]
  exact ⟨fun world gone => (same world gone).trans (missed world).symm, fun world gone => by
    rw [same world gone]
    exact gone⟩

/-- A payload is refused and ends, whatever its end is. -/
theorem recordEnding_gone (key : Key V) {ends : key.Value → Quiet V σ Unit}
    (still : ∀ value, Quiet.Degrades (ends value) (ends value)) (value : key.Value)
    (id : FailureId) :
    Quiet.Degrades (recordEnding key ends value id : Quiet V σ Bool)
      (do (do ends value; Bare.miss key id); return false) := by
  have refused : Quiet.Degrades (Slot.put key id.raw value : Quiet V σ (Stored key.Value))
      (pure (.rejected value)) := .idle fun world gone => put_closed (Thread.stack_gone gone key) _ _
  have ended : Quiet.Degrades (do (do ends value; noteStray key id); return false : Quiet V σ Bool)
      (do (do ends value; Bare.miss key id); return false) :=
    .seq (.seq (still value) fun _ => noteStray_gone key id) fun _ => .still fun _ gone => gone
  have same (world : World V σ) (gone : world.thread.store = none) :
      recordEnding key ends value id world =
        (do (do ends value; noteStray key id); return false : Quiet V σ Bool) world := by
    unfold recordEnding
    simp only [bind, StateT.bind, refused.same world gone]
    rfl
  exact ⟨fun world gone => (same world gone).trans (ended.same world gone), fun world gone => by
    rw [same world gone]
    exact ended.gone world gone⟩

variable (ending : ∀ (kind : V.Kind) (value : V.Value kind) (world : World V σ),
  world.thread.store = none → (Host.destroy kind value world).2.thread.store = none)
include ending

theorem release_gone (key : Key V) (value : key.Value) :
    Quiet.Degrades (release key value : Quiet V σ Unit) (release key value) := by
  cases key with
  | app kind => exact .still (ending kind value)
  | tally | thrown => exact .still fun _ gone => gone

theorem releaseAll_gone (payloads : List (Payload V)) :
    Quiet.Degrades (releaseAll payloads : Quiet V σ Unit) (releaseAll payloads) := by
  induction payloads with
  | nil => exact .still fun _ gone => gone
  | cons payload rest ih => exact .seq (release_gone ending payload.key payload.value) fun _ => ih

theorem record_gone (key : Key V) (value : key.Value) (id : FailureId) :
    Quiet.Degrades (record key value id : Quiet V σ Bool)
      (do Bare.lose key value id; return false) :=
  recordEnding_gone key (release_gone ending key) value id

theorem record_unheard (key : Key V) (value : key.Value) (id : FailureId) :
    Quiet.Degrades (discard (record key value id) : Quiet V σ Unit) (Bare.lose key value id) where
  same world gone := by
    change ((), (record key value id world).2) = _
    rw [(record_gone ending key value id).same world gone]
    rfl
  gone := (record_gone ending key value id).gone

theorem recordAll_gone (payloads : List (Payload V)) (id : FailureId) :
    Quiet.Degrades (recordAll payloads id : Quiet V σ Unit) (Bare.loseAll payloads id) := by
  induction payloads with
  | nil => exact .still fun _ gone => gone
  | cons payload rest ih =>
      exact .seq (record_unheard ending payload.key payload.value id) fun _ => ih

theorem dismiss_gone (guard : Guard V (Deferred V σ)) :
    Quiet.Degrades (guard.dismiss : Quiet V σ Unit) guard.dismiss := by
  unfold Guard.dismiss
  cases guard.context with
  | prepared payloads => exact releaseAll_gone ending payloads
  | deferred key code => exact .still fun _ gone => gone

end Operations

namespace Quiet.IgnoresStorage

theorem seq {act : Quiet V σ α} {next : α → Quiet V σ β} (first : act.IgnoresStorage)
    (later : ∀ value, (next value).IgnoresStorage) : (act >>= next).IgnoresStorage := by
  intro world store
  change next (act _).1 (act _).2 = _
  rw [first world store]
  exact later _ _ _

theorem upcoming : (FailureId.upcoming : Quiet V σ FailureId).IgnoresStorage := by
  rintro ⟨process, ⟨kept, lastToken, tallying, current, reserved, unwindings⟩, host⟩ store
  cases reserved <;> rfl

theorem mint : (FailureId.mint : Quiet V σ FailureId).IgnoresStorage :=
  seq upcoming fun _ _ _ => rfl

theorem reserve : (FailureId.reserve : Quiet V σ FailureId).IgnoresStorage :=
  seq upcoming fun _ _ _ => rfl

theorem current : (FailureId.current : Quiet V σ (Option FailureId)).IgnoresStorage := fun _ _ => rfl

theorem unwinding : (Guard.unwinding : Quiet V σ Bool).IgnoresStorage := fun _ _ => rfl

theorem target {κ : Key V → Type} (guard : Guard V κ) :
    (guard.target : Quiet V σ (Option FailureId)).IgnoresStorage := by
  refine seq current fun id => ?_
  split
  · exact fun _ _ => rfl
  · refine seq unwinding fun unwinds => ?_
    split
    · exact seq reserve fun _ _ _ => rfl
    · exact fun _ _ => rfl

theorem identify (object : Thrown V) :
    (object.identify : Quiet V σ FailureId).IgnoresStorage := by
  unfold Thrown.identify
  cases object.carried? with
  | none => exact mint
  | some id => exact fun _ _ => rfl

theorem inForce : (Settings.inForce : Quiet V σ Settings).IgnoresStorage := by
  rintro ⟨⟨drawn, settings, environment⟩, thread, host⟩ store
  cases settings <;> rfl

theorem adopt [Observer σ] (settings : Settings) :
    (settings.adopt : Quiet V σ Bool).IgnoresStorage := by
  rintro ⟨⟨drawn, decided, environment⟩, thread, host⟩ store
  cases decided <;> rfl

theorem tallying : (FaultRelay.tallying : Quiet V σ Bool).IgnoresStorage :=
  seq inForce fun _ _ _ => rfl

theorem degrades {act : Quiet V σ α} (ignores : act.IgnoresStorage) : act.Degrades act := by
  refine .still fun world gone => ?_
  have same := congrArg (fun ended => ended.2.thread.store) (ignores world none)
  have here : { world with thread.store := none } = world := by
    obtain ⟨process, ⟨store, lastToken, tallying, current, reserved, unwindings⟩, host⟩ := world
    cases gone
    rfl
  rw [here] at same
  exact same

end Quiet.IgnoresStorage

section Scopes

variable [Host V σ]

theorem enter_degrades (scope : Scope V) :
    Quiet.Degrades (scope.enter : Quiet V σ (OpenScope V)) (Bare.enter scope) := by
  refine .seq (.still fun _ gone => gone) fun token => .seq (.forM (fun key => ?_) _) fun _ =>
    .still fun world gone => ?_
  · have told (world : World V σ) (gone : world.thread.store = none) :
        Scope.openSlot token key world = emit (.opened key.name 0) world := by
      unfold Scope.openSlot
      simp only [bind, StateT.bind, Slot.openFor_gone gone]
    exact ⟨told, fun world gone => by
      rw [told world gone]
      exact gone⟩
  · cases scope.interest.tallies <;> exact gone

theorem leave_degrades (active : OpenScope V) :
    Quiet.Degrades (active.leave : Quiet V σ Unit) (Bare.leave active) := by
  have closed (keys : List (Key V)) :
      Quiet.Degrades (keys.forM (Scope.closeSlot active.token) : Quiet V σ Unit) (pure ()) := by
    refine .idle fun world gone => ?_
    induction keys with
    | nil => rfl
    | cons key rest ih =>
        change (rest.forM (Scope.closeSlot active.token) : Quiet V σ Unit)
          (Scope.closeSlot active.token key world).2 = _
        rw [closeSlot_gone gone]
        exact ih
  have left : Quiet.Degrades (Bare.leave active : Quiet V σ Unit) (Bare.leave active) := by
    refine .still fun world gone => ?_
    obtain ⟨interest, token, tallies⟩ := active
    cases tallies <;> exact gone
  have both := Quiet.Degrades.seq (closed active.interest.keys.reverse) fun _ => left
  exact both

end Scopes

namespace Act.Degrades

variable {throws wider : Thrown V → Prop} {act rest mid : Act V σ α}

/-- The first step of a comparison. -/
theorem via (same : ∀ world, world.thread.store = none → act world = mid world)
    (degrades : Degrades throws mid rest) : Degrades throws act rest := fun world gone => by
  rw [same world gone]
  exact degrades world gone

theorem widen (degrades : Degrades throws act rest) (more : ∀ object, throws object → wider object) :
    Degrades wider act rest := fun world gone =>
  { degrades world gone with
    thrown := fun object unwound => more object ((degrades world gone).thrown object unwound) }

theorem quietly {act rest : Quiet V σ α} (degrades : act.Degrades rest) :
    Degrades throws (quietly act) (FaultRelay.quietly rest) := fun world gone => by
  refine ⟨?_, degrades.gone world gone, nofun, nofun⟩
  change (Except.ok (act world).1, (act world).2) = _
  rw [degrades.same world gone]
  rfl

theorem just (value : α) : Degrades throws (pure value : Act V σ α) (pure value) := by
  have still : Quiet.Degrades (pure value : Quiet V σ α) (pure value) := .still fun _ gone => gone
  exact quietly still

theorem unwind (object : Thrown V) :
    Degrades (· = object) (Act.unwind object : Act V σ α) (Act.unwind object) := fun _ gone =>
  ⟨rfl, gone, nofun, fun other unwound => by
    cases unwound
    rfl⟩

theorem bind {next next' : α → Act V σ β} {throws' : α → Thrown V → Prop}
    (first : Degrades throws act rest)
    (later : ∀ value, Degrades (throws' value) (next value) (next' value)) :
    Degrades (fun object => throws object ∨ ∃ value, throws' value object) (act >>= next)
      (rest >>= next') := fun world gone => by
  obtain ⟨same, gone, whole, thrown⟩ := first world gone
  rw [bind_run_congr same.symm next']
  rcases ended : (act world).1 with exit | value
  · rw [ended] at whole thrown
    rw [bind_error ended, bind_error ended]
    refine ⟨rfl, gone, fun aborted => ?_, fun object unwound => ?_⟩
    · cases aborted
      exact whole rfl
    · cases unwound
      exact .inl (thrown object rfl)
  · rw [bind_ok ended, bind_ok ended]
    exact (later value).widen (fun object throws => .inr ⟨value, throws⟩) _ gone

theorem andThen {next next' : α → Act V σ β} (first : Degrades throws act rest)
    (later : ∀ value, Degrades throws (next value) (next' value)) :
    Degrades throws (act >>= next) (rest >>= next') :=
  (bind first later).widen fun _ throws => throws.elim id fun ⟨_, throws⟩ => throws

theorem map (change : α → β) (degrades : Degrades throws act rest) :
    Degrades throws (change <$> act) (change <$> rest) := fun world gone => by
  obtain ⟨same, gone, whole, thrown⟩ := degrades world gone
  rw [map_apply, map_apply, ← same]
  rcases ended : (act world).1 with exit | value
  · rw [ended] at whole thrown
    refine ⟨rfl, gone, fun aborted => ?_, fun object unwound => ?_⟩
    · cases aborted
      exact whole rfl
    · cases unwound
      exact thrown object rfl
  · exact ⟨rfl, gone, nofun, nofun⟩

theorem attempt (degrades : Degrades throws act rest) :
    Degrades wider act.attempt rest.attempt := fun world gone => by
  obtain ⟨same, gone, whole, -⟩ := degrades world gone
  obtain ⟨ended, returned⟩ := attempt_finished whole
  refine ⟨?_, ?_, fun aborted => ?_, fun object unwound => ?_⟩
  · unfold Act.attempt
    rw [same]
  · unfold Act.attempt
    rcases result : act world with ⟨(object | _) | value, later⟩ <;> rw [result] at gone <;>
      exact gone
  · rw [returned] at aborted
    cases aborted
  · rw [returned] at unwound
    cases unwound

/-- What runs on the way out is quiet. -/
theorem ensuring {after : Act V σ Unit} {after' : Quiet V σ Unit}
    (degrades : Degrades throws act rest)
    (leaves : Degrades throws after (FaultRelay.quietly after')) :
    Degrades throws (act.ensuring after) (rest.ensuring (FaultRelay.quietly after')) :=
  fun world gone => by
    obtain ⟨same, gone, whole, thrown⟩ := degrades world gone
    obtain ⟨left, last, -, -⟩ := leaves (act world).2 gone
    rw [left] at last
    have ended : act.ensuring after world = ((act world).1, (after' (act world).2).2) := by
      rw [Act.ensuring_apply]
      rcases result : act world with ⟨(object | _) | value, later⟩ <;> rw [result] at left whole
      · simp only [left]
        rfl
      · exact absurd rfl whole
      · simp only [left]
        rfl
    rw [ended, ensuring_quietly_apply, ← same]
    refine ⟨?_, last, whole, thrown⟩
    rcases result : (act world).1 with (object | _) | value
    · rfl
    · exact absurd result whole
    · rfl

end Act.Degrades

end FaultRelay

import FaultRelay.Parcel
import FaultRelay.Proofs.Balance
import FaultRelay.Proofs.Consultation

/-! Code whose consultations are known wherever it runs. The library's own code is of that kind if what
the application puts into it is: every operation is put together from a few steps of the thread, from
the ends of values, and from the four ways to consult the settings. A tally that code is given came
out of a slot, so that some stray was counted before. -/
namespace FaultRelay

variable {V : Vocabulary} {σ α β : Type} {past later : List Consultation}

def Payload.Justified (past : List Consultation) (payload : Payload V) : Prop :=
  payload.key = .tally → ¬ Uncounted past

theorem Payload.Justified.lasts {payload : Payload V} (justified : payload.Justified past)
    (goes : past <+: later) : payload.Justified later :=
  fun tally uncounted => justified tally (uncounted.earlier goes)

/-- If the type is that of tallies, the stack holds none unless some stray in `past` was counted. -/
def Key.Justified (past : List Consultation) (key : Key V) (stack : Stack key.Value) : Prop :=
  key = .tally → Uncounted past → ∀ frame ∈ stack.frames, frame.held = none

section Stacks

variable {key : Key V} {stack : Stack key.Value}

theorem Thread.Justified.ofKey {thread : Thread V} (justified : thread.Justified past)
    (key : Key V) : key.Justified past (thread.stack key) := by
  rintro rfl uncounted
  exact justified uncounted

theorem Thread.Justified.setStack {thread : Thread V} (justified : thread.Justified past)
    (vacant : key.Justified past stack) : (thread.setStack key stack).Justified past := by
  intro uncounted
  by_cases gone : thread.store = none
  · rw [Thread.setStack_gone gone]
    exact justified uncounted
  · by_cases tally : key = .tally
    · subst tally
      rw [Thread.Untallied, Thread.stack_setStack gone]
      exact vacant rfl uncounted
    · rw [Thread.Untallied, Thread.stack_setStack_other _ _ (Ne.symm tally)]
      exact justified uncounted

namespace Key.Justified

theorem openFor (justified : key.Justified past stack) (owner : Token) :
    key.Justified past (stack.openFor owner) := by
  intro tally uncounted
  have vacant := justified tally uncounted
  obtain ⟨_ | ⟨top, below⟩⟩ := stack
  · simp [Stack.openFor, Stack.openFrames, Frame.fresh]
  · obtain ⟨own, others⟩ := List.forall_mem_cons.1 vacant
    by_cases same : top.owner = owner
    · simpa [Stack.openFor, Stack.openFrames, same] using ⟨own, others⟩
    · simpa [Stack.openFor, Stack.openFrames, same, Frame.fresh] using ⟨own, others⟩

theorem close (justified : key.Justified past stack) (owner : Token) :
    key.Justified past (stack.close owner).2 := by
  intro tally uncounted
  have vacant := justified tally uncounted
  obtain ⟨frames⟩ := stack
  change ∀ frame ∈ (Stack.closeFrames owner frames).2, frame.held = none
  induction frames with
  | nil => exact vacant
  | cons top below ih =>
      obtain ⟨own, others⟩ := List.forall_mem_cons.1 vacant
      unfold Stack.closeFrames
      split
      · split
        · exact List.forall_mem_cons.2 ⟨own, others⟩
        · rw [own]
          exact others
      · exact List.forall_mem_cons.2 ⟨own, ih (fun _ _ => others) others⟩

theorem onTop (justified : key.Justified past stack)
    {change : Option (Nat × key.Value) → Option (Nat × key.Value)}
    (keeps : key = .tally → Uncounted past → change none = none) :
    key.Justified past (stack.onTop fun top => { top with held := change top.held }) := by
  intro tally uncounted
  have vacant := justified tally uncounted
  obtain ⟨_ | ⟨top, below⟩⟩ := stack
  · exact vacant
  · obtain ⟨own, others⟩ := List.forall_mem_cons.1 vacant
    refine List.forall_mem_cons.2 ⟨?_, others⟩
    change change top.held = none
    rw [own, keeps tally uncounted]

theorem put {id : Nat} {value : key.Value} (justified : key.Justified past stack)
    (own : Payload.Justified past ⟨key, value⟩) : key.Justified past (stack.put id value).2 := by
  obtain ⟨_ | ⟨top, below⟩⟩ := stack
  · exact justified
  · exact fun tally uncounted => absurd uncounted (own tally)

theorem takeFor (justified : key.Justified past stack) (id : Nat) :
    key.Justified past (stack.takeFor id).2 := by
  intro tally uncounted
  have vacant := justified tally uncounted
  obtain ⟨_ | ⟨top, below⟩⟩ := stack
  · exact vacant
  · obtain ⟨own, others⟩ := List.forall_mem_cons.1 vacant
    refine List.forall_mem_cons.2 ⟨?_, others⟩
    change (top.without id).held = none
    unfold Frame.without
    split
    · rfl
    · exact own

theorem valueFor (justified : key.Justified past stack) {id : Nat} {value : key.Value}
    (found : stack.valueFor id = some value) : Payload.Justified past ⟨key, value⟩ := by
  intro tally uncounted
  have vacant := justified tally uncounted
  obtain ⟨_ | ⟨top, below⟩⟩ := stack
  · cases found
  · have held := Frame.held_of_valueFor (show top.valueFor id = some value from found)
    rw [vacant top List.mem_cons_self] at held
    cases held

end Key.Justified

end Stacks

theorem upcoming_under (world : World V σ) (settings : Option Settings) :
    FailureId.upcoming (world.under settings) =
      ((FailureId.upcoming world).1, (FailureId.upcoming world).2.under settings) := by
  rcases promised : world.thread.reserved with _ | id
  · rw [FailureId.upcoming_unreserved promised]
    exact FailureId.upcoming_unreserved promised
  · rw [FailureId.upcoming_reserved promised]
    exact FailureId.upcoming_reserved promised

theorem upcoming_environment (world : World V σ) :
    (FailureId.upcoming world).2.process.environment = world.process.environment := by
  rcases promised : world.thread.reserved with _ | id
  · rw [FailureId.upcoming_unreserved promised]
    rfl
  · rw [FailureId.upcoming_reserved promised]

abbrev Whatever : List Consultation → α → Prop := fun _ _ => True

/-- Wherever the code is run after `past`, its consultations are known, and what it returns is as
`post` says. -/
def Act.Frank [Observer σ] (past : List Consultation) (act : Act V σ α)
    (post : List Consultation → α → Prop) : Prop :=
  ∀ later world, past <+: later → world.thread.Justified later →
    ∃ events, Consults later act world events ∧
      ∀ value, (act world).1 = .ok value → post (later ++ events) value

namespace Act.Frank

section Combinators

variable [Observer σ] {act : Act V σ α} {post : List Consultation → α → Prop}

theorem lasts (frank : Frank past act post) (goes : past <+: later) : Frank later act post :=
  fun _ world further justified => frank _ world (goes.trans further) justified

theorem aside (aloof : act.Aloof)
    (keeps : ∀ later world, past <+: later → world.thread.Justified later →
      (act world).2.thread.Justified later ∧ ∀ value, (act world).1 = .ok value → post later value) :
    Frank past act post := by
  intro later world goes justified
  obtain ⟨kept, ends⟩ := keeps later world goes justified
  exact ⟨[], .aside aloof fun _ => kept, by rwa [List.append_nil]⟩

theorem pure {value : α} (holds : ∀ later, past <+: later → post later value) :
    Frank past (pure value : Act V σ α) post := by
  refine aside ⟨fun _ _ => rfl, fun _ => rfl⟩ fun later world goes justified => ?_
  refine ⟨justified, fun _ answer => ?_⟩
  cases answer
  exact holds later goes

theorem done (value : α) : Frank past (Pure.pure value : Act V σ α) Whatever :=
  pure fun _ _ => trivial

theorem unwind (object : Thrown V) : Frank past (Act.unwind object : Act V σ α) post :=
  aside ⟨fun _ _ => rfl, fun _ => rfl⟩ fun _ _ _ justified =>
    ⟨justified, fun _ answer => by cases answer⟩

theorem bind {middle : List Consultation → α → Prop} {post : List Consultation → β → Prop}
    {next : α → Act V σ β} (first : Frank past act middle)
    (rest : ∀ later value, past <+: later → middle later value → Frank later (next value) post) :
    Frank past (act >>= next) post := by
  intro later world goes justified
  obtain ⟨events, consults, ends⟩ := first later world goes justified
  rcases answer : (act world).1 with exit | value
  · refine ⟨events, .failed consults answer, fun value returned => ?_⟩
    rw [bind_error answer] at returned
    cases returned
  · have further := goes.trans (List.prefix_append later events)
    obtain ⟨more, consults', ends'⟩ := rest _ value further (ends value answer) _ _
      (List.prefix_refl _) (consults.justified justified)
    refine ⟨events ++ more, .returned consults answer consults', fun result returned => ?_⟩
    rw [bind_ok answer] at returned
    rw [← List.append_assoc]
    exact ends' result returned

theorem seq {middle : List Consultation → α → Prop} {post : List Consultation → β → Prop}
    {act : Quiet V σ α} {next : α → Quiet V σ β} (first : Frank past (quietly act) middle)
    (rest : ∀ later value, past <+: later → middle later value →
      Frank later (quietly (next value)) post) :
    Frank past (quietly (act >>= next)) post := by
  rw [quietly_bind]
  exact bind first rest

theorem discard {act : Quiet V σ α} (frank : Frank past (quietly act) post) :
    Frank past (quietly (discard act) : Act V σ Unit) Whatever :=
  bind frank fun _ _ _ _ => done ()

theorem map {change : α → β} (frank : Frank past act post) :
    Frank past (change <$> act) Whatever := by
  rw [map_eq_pure_bind]
  exact bind frank fun _ _ _ _ => done _

theorem forM {action : β → Quiet V σ Unit}
    (each : ∀ item later, past <+: later → Frank later (quietly (action item)) Whatever)
    (items : List β) : Frank past (quietly (items.forM action) : Act V σ Unit) Whatever := by
  induction items generalizing past with
  | nil => exact done ()
  | cons item rest ih =>
      exact seq (each item past (List.prefix_refl past)) fun _ _ goes _ =>
        ih fun item _ further => each item _ (goes.trans further)

theorem attempt (frank : Frank past act post) :
    Frank past act.attempt fun later ended => ∀ value, ended = .ok value → post later value := by
  intro later world goes justified
  obtain ⟨events, consults, ends⟩ := frank later world goes justified
  refine ⟨events, .attempt consults, ?_⟩
  revert ends
  unfold Act.attempt
  rcases act world with ⟨(object | _) | value, after⟩ <;> intro ends
  · rintro _ ⟨⟩ value ⟨⟩
  · rintro _ ⟨⟩
  · rintro _ ⟨⟩ value ⟨⟩
    exact ends value rfl

theorem onUnwinding {clean : Act V σ Unit} (frank : Frank past act post)
    (cleaning : Frank past clean Whatever) : Frank past (act.onUnwinding clean) post := by
  intro later world goes justified
  obtain ⟨events, consults, ends⟩ := frank later world goes justified
  rcases ended : (act world).1 with (object | _) | value
  · obtain ⟨more, consults', _⟩ := cleaning _ _ (goes.trans (List.prefix_append later events))
      (consults.justified justified)
    refine ⟨events ++ more, .cleanup consults ended consults', fun value returned => ?_⟩
    rw [onUnwinding_cleanup ended] at returned
    dsimp only at returned
    split at returned <;> cases returned
  · have intact : ∀ object, (act world).1 ≠ .error (.unwinding object) := by simp [ended]
    refine ⟨events, .passed consults intact, fun value returned => ends value ?_⟩
    rwa [onUnwinding_passed intact] at returned
  · have intact : ∀ object, (act world).1 ≠ .error (.unwinding object) := by simp [ended]
    refine ⟨events, .passed consults intact, fun value returned => ends value ?_⟩
    rwa [onUnwinding_passed intact] at returned

theorem ensuring {after : Act V σ Unit} (frank : Frank past act post)
    (cleaning : Frank past after Whatever) : Frank past (act.ensuring after) Whatever :=
  bind (frank.onUnwinding cleaning) fun _ _ goes _ =>
    bind (cleaning.lasts goes) fun _ _ _ _ => done _

end Combinators

section Steps

variable [Observer σ] {post : List Consultation → α → Prop}

theorem threaded {act : Quiet V σ α} (step : Thread V → α × Thread V)
    (same : ∀ world, act world =
      ((step world.thread).1, { world with thread := (step world.thread).2 }))
    (keeps : ∀ later thread, past <+: later → thread.Justified later →
      (step thread).2.Justified later ∧ post later (step thread).1) :
    Frank past (quietly act) post := by
  refine aside (.threaded step same) fun later world goes justified => ?_
  obtain ⟨kept, holds⟩ := keeps later world.thread goes justified
  refine ⟨?_, fun value answer => ?_⟩
  · change (act world).2.thread.Justified later
    rw [same]
    exact kept
  · have returned : (act world).1 = value := Except.ok.inj answer
    rw [same] at returned
    exact returned ▸ holds

theorem reading {act : Quiet V σ α} (look : Thread V → α)
    (same : ∀ world, act world = (look world.thread, world)) : Frank past (quietly act) Whatever :=
  threaded (fun thread => (look thread, thread)) same fun _ _ _ justified => ⟨justified, trivial⟩

theorem modifyThread {change : Thread V → Thread V}
    (same : ∀ thread, (change thread).store = thread.store) :
    Frank past (quietly (Quiet.modifyThread change) : Act V σ Unit) Whatever := by
  refine threaded (fun thread => ((), change thread)) (fun _ => rfl) fun later thread _ justified =>
    ⟨fun uncounted => ?_, trivial⟩
  have stack : (change thread).stack .tally = thread.stack .tally := by
    unfold Thread.stack
    rw [same]
  rw [Thread.Untallied, stack]
  exact justified uncounted

theorem onStack {key : Key V} {change : Stack key.Value → α × Stack key.Value}
    (keeps : ∀ later stack, past <+: later → key.Justified later stack →
      key.Justified later (change stack).2 ∧ post later (change stack).1) :
    Frank past (quietly (Slot.onStack key change) : Act V σ α) post := by
  refine threaded (fun thread => ((change (thread.stack key)).1,
    thread.setStack key (change (thread.stack key)).2)) (fun _ => rfl)
    fun later thread goes justified => ?_
  obtain ⟨kept, holds⟩ := keeps later _ goes (justified.ofKey key)
  exact ⟨justified.setStack kept, holds⟩

theorem emit (event : Event) : Frank past (quietly (emit event) : Act V σ Unit) Whatever :=
  aside ⟨fun _ _ => rfl, fun _ => rfl⟩ fun _ _ _ justified => ⟨justified, fun _ _ => trivial⟩

theorem upcoming : Frank past (quietly FailureId.upcoming : Act V σ FailureId) Whatever := by
  refine aside ⟨fun world settings => ?_, upcoming_environment⟩ fun _ world _ justified =>
    ⟨fun uncounted => ?_, fun _ _ => trivial⟩
  · change (Except.ok (FailureId.upcoming (world.under settings)).1,
      (FailureId.upcoming (world.under settings)).2) = _
    rw [upcoming_under]
    rfl
  · change (FailureId.upcoming world).2.thread.Untallied
    rw [FailureId.upcoming_thread]
    exact justified uncounted

theorem mint : Frank past (quietly FailureId.mint : Act V σ FailureId) Whatever :=
  seq upcoming fun _ _ _ _ => seq (modifyThread fun _ => rfl) fun _ _ _ _ => done _

theorem reserve : Frank past (quietly FailureId.reserve : Act V σ FailureId) Whatever :=
  seq upcoming fun _ _ _ _ => seq (modifyThread fun _ => rfl) fun _ _ _ _ => done _

theorem current : Frank past (quietly FailureId.current : Act V σ (Option FailureId)) Whatever :=
  reading Thread.current fun _ => rfl

theorem unwinding : Frank past (quietly Guard.unwinding : Act V σ Bool) Whatever :=
  reading (fun thread => 0 < thread.unwindings) fun _ => rfl

theorem install (settings : Settings) :
    Frank past (quietly settings.install : Act V σ (Except Settings Unit)) Whatever :=
  fun later world _ _ => ⟨_, .install later settings world, fun _ _ => trivial⟩

theorem inForce : Frank past (quietly Settings.inForce : Act V σ Settings) Whatever :=
  fun later world _ _ => ⟨_, .current later world, fun _ _ => trivial⟩

theorem tallying : Frank past (quietly tallying : Act V σ Bool) Whatever :=
  fun later world _ _ => ⟨_, .tally later world, fun _ _ => trivial⟩

theorem noteStray (key : Key V) (id : FailureId) :
    Frank past (quietly (noteStray key id) : Act V σ Unit) Whatever :=
  fun later world _ _ => ⟨_, .stray later key id world, fun _ _ => trivial⟩

/-- To adopt settings is to install them, and to be told no more than if they were accepted. -/
theorem adopt (settings : Settings) :
    Frank past (quietly settings.adopt : Act V σ Bool) Whatever := by
  have installed : (settings.adopt : Quiet V σ Bool) = (do
      let answer ← settings.install
      return answer.isOk) := by
    funext world
    obtain ⟨⟨drawn, _ | decided, environment⟩, thread, host⟩ := world <;> rfl
  rw [installed]
  exact seq (install settings) fun _ _ _ _ => done _

end Steps

section Slots

variable [Observer σ] {key : Key V}

theorem openFor (key : Key V) (owner : Token) :
    Frank past (quietly (Slot.openFor key owner) : Act V σ Nat) Whatever :=
  threaded (fun thread => (((thread.setStack key ((thread.stack key).openFor owner)).stack key).depth,
      thread.setStack key ((thread.stack key).openFor owner))) (fun _ => rfl)
    fun _ _ _ justified => ⟨justified.setStack ((justified.ofKey key).openFor owner), trivial⟩

theorem close (key : Key V) (owner : Token) :
    Frank past (quietly (Slot.close key owner) : Act V σ (Closed key.Value)) Whatever :=
  onStack fun _ _ _ justified => ⟨justified.close owner, trivial⟩

theorem put {value : key.Value} (own : Payload.Justified past ⟨key, value⟩) (id : Nat) :
    Frank past (quietly (Slot.put key id value) : Act V σ (Stored key.Value)) Whatever :=
  onStack fun _ _ goes justified => ⟨justified.put (own.lasts goes), trivial⟩

theorem takeFor (key : Key V) (id : Nat) :
    Frank past (quietly (Slot.takeFor key id) : Act V σ (Option key.Value)) fun later answer =>
      ∀ value, answer = some value → Payload.Justified later ⟨key, value⟩ :=
  onStack fun _ _ _ justified => ⟨justified.takeFor id, fun _ found => justified.valueFor found⟩

theorem valueFor (key : Key V) (id : Nat) :
    Frank past (quietly (Slot.valueFor key id) : Act V σ (Option key.Value)) fun later answer =>
      ∀ value, answer = some value → Payload.Justified later ⟨key, value⟩ :=
  threaded (fun thread => ((thread.stack key).valueFor id, thread)) (fun _ => rfl)
    fun _ _ _ justified => ⟨justified, fun _ found => (justified.ofKey key).valueFor found⟩

theorem editTop {change : Option (Nat × key.Value) → Option (Nat × key.Value)}
    (keeps : key = .tally → Uncounted past → change none = none) :
    Frank past (quietly (Slot.editTop key change) : Act V σ Bool) Whatever :=
  onStack fun _ _ goes justified =>
    ⟨justified.onTop fun tally uncounted => keeps tally (uncounted.earlier goes), trivial⟩

theorem isOpen (key : Key V) : Frank past (quietly (Slot.isOpen key) : Act V σ Bool) Whatever :=
  reading (fun thread => (thread.stack key).isOpen) fun _ => rfl

theorem holds (key : Key V) (id : Nat) :
    Frank past (quietly (Slot.holds key id) : Act V σ Bool) Whatever :=
  reading (fun thread => (thread.stack key).topId? == some id) fun _ => rfl

theorem collect (id : FailureId) (keys : List (Key V)) :
    Frank past (quietly (Parcel.collect id keys) : Act V σ (List (Payload V)))
      fun later payloads => ∀ payload ∈ payloads, payload.Justified later := by
  induction keys generalizing past with
  | nil => exact pure fun _ _ _ listed => by cases listed
  | cons key rest ih =>
      refine seq (takeFor key id.raw) fun middle taken _ own => ?_
      refine seq ih fun later others goes justified => ?_
      cases taken with
      | none => exact pure fun _ further payload listed => (justified payload listed).lasts further
      | some value =>
          refine pure fun _ further payload listed => ?_
          rcases List.mem_cons.1 listed with rfl | listed
          · exact (own value rfl).lasts (goes.trans further)
          · exact (justified payload listed).lasts further

end Slots

end Act.Frank

end FaultRelay

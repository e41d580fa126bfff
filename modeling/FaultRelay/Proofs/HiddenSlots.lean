import FaultRelay.Proofs.Veil

/-! A handling block does not see what its enclosing scopes hold. It stands on frames of its own for
every payload type that its handlers read, so that two runs over other values do the same: the body
takes the same steps, the same handler is found and given the same readings, and the result is the
same. What the block hands down in the end is the same in both runs, too, or it is nothing and each
run keeps what it had. -/
namespace FaultRelay

variable {V : Vocabulary} {σ α ρ : Type}

/-- The same is open in both worlds, and only frames of the given types may hold other values. -/
structure World.AlikeBut (keys : List (Key V)) (world world' : World V σ) : Prop where
  process : world.process = world'.process
  lastToken : world.thread.lastToken = world'.thread.lastToken
  tallying : world.thread.tallying = world'.thread.tallying
  current : world.thread.current = world'.thread.current
  reserved : world.thread.reserved = world'.thread.reserved
  unwindings : world.thread.unwindings = world'.thread.unwindings
  gone : world.thread.store = none ↔ world'.thread.store = none
  others : ∀ key, key ∉ keys → world.thread.stack key = world'.thread.stack key
  outline : ∀ key, (world.thread.stack key).outline = (world'.thread.stack key).outline
  host : world.host = world'.host

section Floors

variable {keys : List (Key V)} {world world' : World V σ}

theorem World.AlikeBut.fresh (alike : world.AlikeBut keys world') (fresh : world.thread.Fresh) :
    world'.thread.Fresh := by
  intro key entry listed
  rw [← alike.outline] at listed
  rw [← alike.lastToken]
  exact fresh key entry listed

/-- The frames of the block are the floors, and what encloses it is below them. -/
def World.AlikeBut.link (alike : world.AlikeBut keys world') (fresh : world.thread.Fresh) :
    Link V where
  left := world.thread.lastToken + 1
  right := world.thread.lastToken + 1
  floor key :=
    if world.thread.store.isSome && keys.contains key then
      some (⟨.numbered (world.thread.lastToken + 1), (world.thread.stack key).frames⟩,
        ⟨.numbered (world.thread.lastToken + 1), (world'.thread.stack key).frames⟩)
    else none
  sound {key floors} laid := by
    have above : world'.thread.lastToken < world.thread.lastToken + 1 := by
      rw [alike.lastToken]
      exact Nat.lt_succ_self _
    split at laid
    · cases laid
      exact ⟨fresh.floor (Nat.lt_succ_self _) (le_refl _),
        (alike.fresh fresh).floor above (le_refl _)⟩
    · cases laid

variable (alike : world.AlikeBut keys world') (fresh : world.thread.Fresh)

theorem World.AlikeBut.floor (alive : world.thread.store ≠ none) {key : Key V} (listed : key ∈ keys) :
    (alike.link fresh).floor key =
      some (⟨.numbered (world.thread.lastToken + 1), (world.thread.stack key).frames⟩,
        ⟨.numbered (world.thread.lastToken + 1), (world'.thread.stack key).frames⟩) :=
  if_pos (by simp [Option.isSome_iff_ne_none.2 alive, listed])

theorem World.AlikeBut.bare {key : Key V} (apart : key ∉ keys) :
    (alike.link fresh).floor key = none := if_neg (by simp [apart])

theorem World.AlikeBut.even : (alike.link fresh).Even := by
  refine ⟨rfl, fun {key floors} laid => ?_⟩
  unfold World.AlikeBut.link at laid
  simp only at laid
  split at laid
  · cases laid
    exact ⟨rfl, alike.outline key⟩
  · cases laid

end Floors

section Entering

variable {keys : List (Key V)} {world world' : World V σ}

theorem Stack.outline_openFor_congr {α : Type} {stack stack' : Stack α} (owner : Token)
    (same : stack.outline = stack'.outline) :
    (stack.openFor owner).outline = (stack'.openFor owner).outline := by
  obtain ⟨_ | ⟨⟨theirs, refs, held⟩, below⟩⟩ := stack <;>
    obtain ⟨_ | ⟨⟨theirs', refs', held'⟩, below'⟩⟩ := stack'
  · rfl
  · cases same
  · cases same
  · obtain ⟨entry, rest⟩ := List.cons.inj same
    cases entry
    by_cases mine : theirs = owner
    · simp only [openFor, openFrames, mine, if_true, outline, outlineOf, List.map_cons]
      exact congrArg _ rest
    · simp only [openFor, openFrames, mine, if_false, outline, outlineOf, List.map_cons]
      exact congrArg _ (congrArg _ rest)

theorem World.AlikeBut.opening (alike : world.AlikeBut keys world') (owner : Token) (key : Key V) :
    (world.opening owner key).AlikeBut keys (world'.opening owner key) := by
  by_cases gone : world.thread.store = none
  · have unmoved : ∀ {world : World V σ}, world.thread.store = none →
        world.opening owner key = world := fun gone => by
      rw [World.opening, Thread.setStack_gone gone]
    rw [unmoved gone, unmoved (alike.gone.1 gone)]
    exact alike
  · have alive' : world'.thread.store ≠ none := fun gone' => gone (alike.gone.2 gone')
    have opened : ∀ {world : World V σ}, world.thread.store ≠ none →
        (world.opening owner key).thread.stack key = (world.thread.stack key).openFor owner :=
      fun alive => Thread.stack_setStack alive key _
    have unmoved : ∀ {world : World V σ} {other : Key V}, other ≠ key →
        (world.opening owner key).thread.stack other = world.thread.stack other :=
      fun apart => Thread.stack_setStack_other _ _ apart
    refine { alike with
      gone := iff_of_false (Thread.setStack_alive gone _ _) (Thread.setStack_alive alive' _ _)
      others := fun other beyond => ?_
      outline := fun other => ?_ }
    · by_cases here : other = key
      · subst here
        rw [opened gone, opened alive', alike.others other beyond]
      · rw [unmoved here, unmoved here, alike.others other beyond]
    · by_cases here : other = key
      · subst here
        rw [opened gone, opened alive']
        exact Stack.outline_openFor_congr owner (alike.outline other)
      · rw [unmoved here, unmoved here, alike.outline other]

variable [Host V σ]

theorem World.AlikeBut.emit (alike : world.AlikeBut keys world') (event : Event) :
    (emit event world).2.AlikeBut keys (FaultRelay.emit event world').2 :=
  { alike with host := congrArg (Observer.observe event) alike.host }

theorem World.AlikeBut.openSlots (alike : world.AlikeBut keys world') (owner : Token)
    (opened : List (Key V)) :
    (opened.forM (Scope.openSlot owner) world).2.AlikeBut keys
      (opened.forM (Scope.openSlot owner) world').2 := by
  induction opened generalizing world world' with
  | nil => exact alike
  | cons key rest ih =>
      have after := alike.opening owner key
      have first : (Scope.openSlot owner key world).2.AlikeBut keys
          (Scope.openSlot owner key world').2 := by
        rw [openSlot_apply, openSlot_apply, Stack.depth_eq_length, Stack.depth_eq_length,
          after.outline key]
        exact after.emit _
      exact ih first

theorem World.AlikeBut.enter (alike : world.AlikeBut keys world') (scope : Scope V) :
    (scope.enter world).1 = (scope.enter world').1 ∧
      (scope.enter world).2.AlikeBut keys (scope.enter world').2 := by
  have next : World.AlikeBut keys
      { world with thread.lastToken := world.thread.lastToken + 1 }
      { world' with thread.lastToken := world'.thread.lastToken + 1 } :=
    { alike with lastToken := congrArg (· + 1) alike.lastToken }
  have opened : (scope.opened world).AlikeBut keys (scope.opened world') := by
    unfold Scope.opened
    rw [alike.lastToken] at next ⊢
    exact next.openSlots _ _
  have entered : (scope.entered world).AlikeBut keys (scope.entered world') := by
    rw [Scope.entered, Scope.entered]
    split
    · exact { opened with tallying := congrArg (· + 1) opened.tallying }
    · exact opened
  rw [enter_apply, enter_apply, alike.lastToken]
  exact ⟨rfl, entered.emit _⟩

/-- With the block entered, all that differs is below its own frames. -/
theorem World.AlikeBut.veiled {scope : Scope V} (alike : world.AlikeBut scope.interest.keys world')
    (fresh : world.thread.Fresh) :
    (alike.link fresh).Veiled (scope.enter world).2 (scope.enter world').2 := by
  have entered := (alike.enter scope).2
  refine { entered with drawn := ?_, frames := fun key => ?_ }
  · rw [enter_lastToken]
    exact le_refl _
  · by_cases gone : world.thread.store = none
    · have bare : (alike.link fresh).floor key = none := if_neg (by simp [gone])
      rw [Thread.stack_gone ((enter_gone scope world).2 gone),
        Thread.stack_gone ((enter_gone scope world').2 (alike.gone.1 gone))]
      exact .bottom bare
    · have alive' : world'.thread.store ≠ none := fun gone' => gone (alike.gone.2 gone')
      rw [frames_enter scope fresh gone, frames_enter scope (alike.fresh fresh) alive',
        ← alike.lastToken]
      split
      · rename_i listed
        exact .floor (alike.floor fresh gone listed) 1 none
      · rename_i beyond
        rw [← alike.others key beyond]
        have within : ∀ frame ∈ (world.thread.stack key).frames,
            frame.owner.Within (world.thread.lastToken + 1) := fun frame listed n same =>
          (fresh.within frame listed n same).trans (Nat.le_succ _)
        exact .refl (alike.bare fresh beyond) fun frame listed =>
          ⟨within frame listed, within frame listed⟩

end Entering

section Leaving

def Closed.told {α : Type} (name : String) : Closed α → Option Event
  | .propagated id _ => some (.propagated name id)
  | .discarded id _ => some (.discarded name id)
  | .retained | .released | .notOpen => none

theorem Closed.told_handDown {α : Type} (name : String) (held : Option (Nat × α))
    {below below' : List (Frame α)} (same : Stack.outlineOf below = Stack.outlineOf below') :
    (Stack.handDown held below).1.told name = (Stack.handDown held below').1.told name := by
  rcases held with _ | ⟨id, value⟩
  · rfl
  · cases below <;> cases below' <;> first | rfl | cases same

variable [Discreet V σ] {world world' : World V σ} {owner : Token}

theorem closeSlot_host (key : Key V) :
    (Scope.closeSlot owner key world).2.host =
      (((world.thread.stack key).close owner).1.told key.name).elim world.host
        (Observer.observe · world.host) := by
  rw [closeSlot_apply]
  rcases ((world.thread.stack key).close owner).1 with _ | _ | _ | _ | _ <;> rfl

theorem closeSlot_other (owner : Token) {key other : Key V} (apart : other ≠ key) :
    (Scope.closeSlot owner key world).2.thread.stack other = world.thread.stack other := by
  have closed : (Scope.closeSlot owner key world).2.thread =
      world.thread.setStack key ((world.thread.stack key).close owner).2 := by
    rw [closeSlot_apply]
    rcases ((world.thread.stack key).close owner).1 with _ | _ | _ | _ | _ <;> rfl
  rw [closed, Thread.stack_setStack_other _ _ apart]

theorem closeSlots_hosts {keys : List (Key V)} (once : keys.Nodup)
    (told : ∀ key ∈ keys, ((world.thread.stack key).close owner).1.told key.name =
      ((world'.thread.stack key).close owner).1.told key.name) (host : world.host = world'.host) :
    (keys.forM (Scope.closeSlot owner) world).2.host =
      (keys.forM (Scope.closeSlot owner) world').2.host := by
  -- closing one type leaves the stacks of the others, so that what is told of them stays as it was
  induction keys generalizing world world' with
  | nil => exact host
  | cons key rest ih =>
      obtain ⟨apart, once⟩ := List.nodup_cons.1 once
      obtain ⟨first, later⟩ := List.forall_mem_cons.1 told
      have hosts : (Scope.closeSlot owner key world).2.host =
          (Scope.closeSlot owner key world').2.host := by
        rw [closeSlot_host, closeSlot_host, first, host]
      have others : ∀ other ∈ rest,
          (((Scope.closeSlot owner key world).2.thread.stack other).close owner).1.told other.name =
            (((Scope.closeSlot owner key world').2.thread.stack other).close owner).1.told
              other.name := by
        intro other listed
        have differ : other ≠ key := fun same => apart (same ▸ listed)
        rw [closeSlot_other owner differ, closeSlot_other owner differ]
        exact later other listed
      exact ih once others hosts

theorem leave_hosts {active : OpenScope V}
    (told : ∀ key ∈ active.interest.keys,
      ((world.thread.stack key).close active.token).1.told key.name =
        ((world'.thread.stack key).close active.token).1.told key.name)
    (host : world.host = world'.host) :
    (active.leave world).2.host = (active.leave world').2.host := by
  have closed := closeSlots_hosts (List.nodup_reverse.2 active.interest.nodup_keys)
    (fun key listed => told key (List.mem_reverse.1 listed)) host
  obtain ⟨interest, token, tallies⟩ := active
  cases tallies <;> exact congrArg (Observer.observe _) closed

end Leaving

section Course

variable [Discreet V σ] {world world' : World V σ}

/-- Once the failure was dealt with, what a block has of its own is one frame for each of its types,
over those that were there before. What it hands down from there is the same in both runs. -/
theorem World.AlikeBut.handed_down {scope : Scope V}
    (alike : world.AlikeBut scope.interest.keys world') (fresh : world.thread.Fresh)
    {later later' : World V σ} (veiled : (alike.link fresh).Veiled later later') {key : Key V}
    (outline : (later.thread.stack key).outline = ((scope.enter world).2.thread.stack key).outline)
    (listed : key ∈ scope.interest.keys) :
    let token := Token.numbered (world.thread.lastToken + 1)
    (∃ held,
      ((later.thread.stack key).close token).2.frames =
        (Stack.handDown held (world.thread.stack key).frames).2 ∧
      ((later'.thread.stack key).close token).2.frames =
        (Stack.handDown held (world'.thread.stack key).frames).2) ∧
    ((later.thread.stack key).close token).1.told key.name =
      ((later'.thread.stack key).close token).1.told key.name := by
  intro token
  have outline' := (veiled.frames key).outline (alike.even fresh)
  by_cases gone : world.thread.store = none
  · have empty : ∀ {stack : Stack key.Value}, stack.outline = [] → stack = .empty :=
      Stack.outline_empty_iff.1
    rw [Thread.stack_gone ((enter_gone scope world).2 gone)] at outline
    rw [empty outline, empty (outline'.symm.trans outline), Thread.stack_gone gone,
      Thread.stack_gone (alike.gone.1 gone)]
    exact ⟨⟨none, rfl, rfl⟩, rfl⟩
  · rw [outline_enter scope fresh gone, if_pos listed] at outline
    obtain ⟨held, frames, frames'⟩ :=
      (veiled.frames key).on_floor (alike.floor fresh gone listed) outline
    rw [show later.thread.stack key = ⟨_⟩ from congrArg Stack.mk frames,
      show later'.thread.stack key = ⟨_⟩ from congrArg Stack.mk frames']
    have closes : ∀ below : List (Frame key.Value),
        (⟨⟨token, 1, held⟩ :: below⟩ : Stack key.Value).close token =
          ((Stack.handDown held below).1, ⟨(Stack.handDown held below).2⟩) := fun below => by
      rw [Stack.close, Stack.closeFrames, if_pos rfl, if_neg (lt_irrefl 1)]
    rw [closes, closes]
    exact ⟨⟨held, rfl, rfl⟩, Closed.told_handDown key.name held (alike.outline key)⟩

theorem World.AlikeBut.leave {scope : Scope V} (alike : world.AlikeBut scope.interest.keys world')
    (fresh : world.thread.Fresh) {later later' : World V σ}
    (veiled : (alike.link fresh).Veiled later later')
    (outline : ∀ key, (later.thread.stack key).outline =
      ((scope.enter world).2.thread.stack key).outline) :
    (((scope.enter world).1.leave later).2.host = ((scope.enter world').1.leave later').2.host) ∧
      ∀ key ∈ scope.interest.keys, ∃ held,
        (((scope.enter world).1.leave later).2.thread.stack key).frames =
            (Stack.handDown held (world.thread.stack key).frames).2 ∧
          (((scope.enter world').1.leave later').2.thread.stack key).frames =
            (Stack.handDown held (world'.thread.stack key).frames).2 := by
  have handed := fun key listed => alike.handed_down fresh veiled (outline key) listed
  have active : (scope.enter world).1 = ⟨scope.interest, .numbered (world.thread.lastToken + 1),
    scope.interest.tallies⟩ := by rw [enter_apply]
  rw [← (alike.enter scope).1, active]
  refine ⟨leave_hosts (fun key listed => (handed key listed).2) veiled.host,
    fun key listed => ?_⟩
  rw [stack_leave, stack_leave, if_pos listed, if_pos listed]
  exact (handed key listed).1

structure Handling.SameCourse [Host V σ] (block : Handling V σ ρ) (world world' : World V σ) :
    Prop where
  body : (block.body (block.scope.enter world).2).1 = (block.body (block.scope.enter world').2).1
  heard : (block.body (block.scope.enter world).2).2.host =
    (block.body (block.scope.enter world').2).2.host
  /-- The block sees the same failure, or none. -/
  trial : (block.trial (block.scope.enter world).2).1 = (block.trial (block.scope.enter world').2).1
  dispatch : ∀ id, block.chain.dispatch id = block.chain.select id >>= Outcome.respond
  selection : ∀ id, (block.trial (block.scope.enter world).2).1 = .ok (.error id) →
    (block.chain.select id (block.trial (block.scope.enter world).2).2).1 =
      (block.chain.select id (block.trial (block.scope.enter world').2).2).1
  result : (block.run world).1 = (block.run world').1
  told : (block.run world).2.host = (block.run world').2.host
  /-- The same pair is handed down in both, or nothing, and each keeps what it had. -/
  frames : (block.run world).1 ≠ .error .aborted → ∀ key ∈ block.scope.interest.keys, ∃ held,
    ((block.run world).2.thread.stack key).frames =
        (Stack.handDown held (world.thread.stack key).frames).2 ∧
      ((block.run world').2.thread.stack key).frames =
        (Stack.handDown held (world'.thread.stack key).frames).2

theorem enclosing_values_stay_hidden (tidy : Tidy V σ) (unseeing : Unseeing V σ)
    {block : Handling V σ ρ} (within : block.Within .all) (fresh : world.thread.Fresh)
    (alike : world.AlikeBut block.scope.interest.keys world') : block.SameCourse world world' := by
  have tied : (veil unseeing .all).Ties ⟨alike.link fresh, alike.even fresh⟩ []
      (block.scope.enter world).2 (block.scope.enter world').2 :=
    ⟨alike.veiled fresh, by simp⟩
  have bodies := within.body.agrees_alone (veil unseeing .all) tied
  have trials := (Handling.trial_program within trivial trivial).agrees_alone (veil unseeing .all) tied
  have inside := Handling.inside_program within trivial trivial
  have insides := inside.agrees_alone (veil unseeing .all) tied
  obtain ⟨_, heard, -⟩ := bodies.tied
  obtain ⟨_, veiled, -⟩ := insides.tied
  have left : (block.inside (block.scope.enter world).2).1 ≠ .error .aborted → _ := fun ended =>
    alike.leave fresh veiled (inside.owes_nothing tidy (fresh_enter block.scope fresh) ended).settled.1
  refine ⟨bodies.1, heard.host, trials.1, block.chain.dispatch_eq, fun id failed => ?_, ?_, ?_, ?_⟩
  · obtain ⟨_, after⟩ := trials.returned failed
    exact ((Program.select trivial within.chain id).agrees_alone (veil unseeing .all) after).1
  · rw [block.run_eq, during_result, during_result]
    exact insides.1
  all_goals
    rw [block.run_eq, during_apply, during_apply, ← insides.1]
    split
  · exact veiled.host
  · rename_i going
    exact (left going).1
  · exact fun finished => absurd rfl finished
  · rename_i going
    exact fun _ => (left going).2

namespace Scenario

theorem diary_unseeing : Unseeing application Diary where
  declared _ _ _ _ _ _ veiled := ⟨rfl, veiled⟩
  available _ _ _ _ _ _ veiled := ⟨rfl, veiled⟩
  produced _ _ _ _ _ veiled := ⟨rfl, veiled⟩

def holding (number : Int) : World application Diary :=
  (record (Topic.ofKind .code) number echoed (outerScope.enter morning).2).2

theorem holding_shape (number : Int) :
    (outerScope.enter morning).2.thread.SameShape (holding number).thread := by
  let key : Key application := Topic.ofKind .code
  have same := Stack.outline_put (α := key.Value) echoed.raw number
    ((outerScope.enter morning).2.thread.stack key)
  exact @Thread.SameShape.setStack _ _ key _ same

theorem holding_alike (first second : Int) :
    (holding first).AlikeBut (Scope.catching attentive.chain).interest.keys (holding second) where
  process := rfl
  lastToken := rfl
  tallying := rfl
  current := rfl
  reserved := rfl
  unwindings := rfl
  gone := iff_of_false nofun nofun
  others key beyond := by
    have apart : key ≠ Topic.ofKind .code := by
      rintro rfl
      exact beyond (by decide)
    exact (Thread.stack_setStack_other _ _ apart).trans (Thread.stack_setStack_other _ _ apart).symm
  outline key := ((holding_shape first).outline key).trans ((holding_shape second).outline key).symm
  host := rfl

/-- A block that listens for codes does not hear the old one, whatever it is. -/
theorem old_codes_stay_hidden :
    ((holding 3).thread.stack (Topic.ofKind .code)).valueFor echoed.raw = some (3 : Int) ∧
      ((holding 4).thread.stack (Topic.ofKind .code)).valueFor echoed.raw = some (4 : Int) ∧
      (Handling.unwinding (under (raise [])) attentive).SameCourse (holding 3) (holding 4) ∧
      (catchUnwinding (under (raise [])) attentive (holding 3)).1.toOption = some true := by
  have body : Program .all [] (under (raise [])) fun _ => [] :=
    .around trivial trivial (fun _ _ => trivial) (fun _ value => .just value) (raising [])
  have fresh : (holding 3).thread.Fresh :=
    (holding_shape 3).fresh (fresh_enter outerScope Thread.fresh_fresh)
  have within : (Handling.unwinding (under (raise [])) attentive).Within .all :=
    ⟨body, attentive_within trivial⟩
  exact ⟨rfl, rfl, enclosing_values_stay_hidden diary_tidy diary_unseeing within fresh
    (holding_alike 3 4), by decide +kernel⟩

end Scenario

end Course

end FaultRelay

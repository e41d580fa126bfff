import FaultRelay.Proofs.Representation

/-! Lending. The borrower runs with the frame of the lender empty, and may bury that frame, fill it,
close it or lend from it again. Tokens are drawn once, so the owner of the frame tells it from every
other: while the owner has a frame of the type, it is the lender's. -/
namespace FaultRelay

variable {V : Vocabulary} {σ : Type}

def Deed.Shuts (key : Key V) (owner : Token) : Deed V → Prop
  | closed type closer _ => type = key ∧ closer = owner
  | storageEnded _ => True
  | _ => False

def Thread.owners (key : Key V) (thread : Thread V) : List Token :=
  (thread.stack key).frames.map Frame.owner

namespace Thread

theorem owners_eq_outline (key : Key V) (thread : Thread V) :
    thread.owners key = (thread.stack key).outline.map Prod.fst := by
  rw [owners, Stack.outline, Stack.outlineOf, List.map_map]
  rfl

theorem owners_setStack {thread : Thread V} {key : Key V} {stack : Stack key.Value}
    (same : stack.outline = (thread.stack key).outline) (other : Key V) :
    (thread.setStack key stack).owners other = thread.owners other := by
  by_cases gone : thread.store = none
  · rw [setStack_gone gone]
  · by_cases here : other = key
    · subst here
      rw [owners_eq_outline, owners_eq_outline, stack_setStack gone, same]
    · rw [owners, owners, stack_setStack_other _ _ here]

theorem mem_owners_openFor {owner opener : Token} {key : Key V} {thread : Thread V}
    (apart : owner ≠ opener) (other : Key V) :
    owner ∈ (thread.setStack key ((thread.stack key).openFor opener)).owners other ↔
      owner ∈ thread.owners other := by
  by_cases gone : thread.store = none
  · rw [setStack_gone gone]
  · by_cases here : other = key
    · subst here
      rw [owners, owners, stack_setStack gone]
      rcases Stack.openFor_cases opener (thread.stack other) with
        ⟨top, below, shape, theirs, shared⟩ | pushed
      · rw [shared, shape]
        rfl
      · rw [pushed, List.map_cons, List.mem_cons]
        exact or_iff_right apart
    · rw [owners, owners, stack_setStack_other _ _ here]

theorem mem_owners_openAll {owner opener : Token} (apart : owner ≠ opener) (keys : List (Key V))
    (thread : Thread V) (key : Key V) :
    owner ∈ (thread.openAll opener keys).owners key ↔ owner ∈ thread.owners key := by
  induction keys generalizing thread with
  | nil => rfl
  | cons first rest ih => exact (ih _).trans (mem_owners_openFor apart key)

theorem mem_owners_close {owner closer : Token} {type key : Key V} {thread : Thread V}
    (apart : ¬(type = key ∧ closer = owner)) :
    owner ∈ (thread.setStack type ((thread.stack type).close closer).2).owners key ↔
      owner ∈ thread.owners key := by
  by_cases gone : thread.store = none
  · rw [setStack_gone gone]
  · by_cases here : key = type
    · subst here
      rw [owners, owners, stack_setStack gone]
      exact Stack.mem_owners_closeFrames fun same => apart ⟨rfl, same⟩
    · rw [owners, owners, stack_setStack_other _ _ here]

end Thread

theorem Stack.owner_closeFrames {α : Type} {owner : Token} {frames : List (Frame α)}
    (once : ∀ frame ∈ frames, frame.refs = 1) (distinct : (frames.map Frame.owner).Nodup) :
    owner ∉ (closeFrames owner frames).2.map Frame.owner := by
  rcases split_at_owner owner frames with absent | ⟨above, frame, below, rfl, apart, theirs⟩
  · rw [closeFrames_absent absent]
    simpa using absent
  · have last : ¬1 < frame.refs := by
      have refs := once frame (by simp)
      omega
    rw [List.map_append, List.map_cons, theirs, List.nodup_middle, List.nodup_cons] at distinct
    rw [closeFrames_last apart theirs last, List.map_append, owners_handDown]
    exact distinct.1

theorem Represents.owner_drawn {mounts : List (Mount V)} {scene : Scene V σ}
    (represents : Represents mounts scene) {key : Key V} {owner : Token}
    (inside : owner ∈ scene.world.thread.owners key) :
    owner.value ≤ scene.world.thread.lastToken := by
  have alive : scene.world.thread.store ≠ none :=
    Thread.alive_of_frames (List.ne_nil_of_mem (List.mem_map.1 inside).choose_spec.1)
  rw [Thread.owners_eq_outline, represents.framed alive, Mount.outline, List.map_map] at inside
  obtain ⟨mount, listed, rfl⟩ := List.mem_map.1 inside
  exact represents.drawn mount (List.mem_filter.1 listed).1

section Steps

variable [Client V σ] {first last : Scene V σ} {deed : Deed V} {key : Key V} {owner : Token}

theorem Does.lastToken_le (does : Does first deed last) :
    first.world.thread.lastToken ≤ last.world.thread.lastToken := by
  cases does with
  | other unmoved => exact unmoved.lastToken.ge
  | enter scope =>
      rw [enter_thread]
      exact Nat.le_succ _
  | leave owner tallies => cases tallies <;> exact le_refl _
  | arm | disarm | pack | unpack | make | finish | startLeaving | close | put | take | count
  | lend | giveBack | keepBack | endStorage => exact le_refl _

/-- An owner whose token was drawn keeps the frames that it has, and gets no further one. -/
theorem Does.owner_stays (does : Does first deed last)
    (drawn : owner.value ≤ first.world.thread.lastToken) (spared : ¬deed.Shuts key owner) :
    owner ∈ last.world.thread.owners key ↔ owner ∈ first.world.thread.owners key := by
  have kept {type : Key V} {stack : Stack type.Value}
      (same : stack.outline = (first.world.thread.stack type).outline) :
      owner ∈ (first.world.thread.setStack type stack).owners key ↔
        owner ∈ first.world.thread.owners key := by
    rw [Thread.owners_setStack same]
  cases does with
  | other unmoved => rw [Thread.owners, unmoved.stack, Thread.owners]
  | @enter hand lends world scope =>
      have apart : owner ≠ .numbered (world.thread.lastToken + 1) := by
        rintro rfl
        exact absurd drawn (Nat.not_succ_le_self _)
      rw [enter_thread]
      exact Thread.mem_owners_openAll apart _ _ key
  | close closer type => exact Thread.mem_owners_close spared
  | leave owner tallies => cases tallies <;> rfl
  | put type id value => exact kept (Stack.outline_put id value _)
  | take type id => exact kept (Stack.outline_takeFor id _)
  | count name id => exact kept (Stack.outline_onTop (by intro; rfl) _)
  | lend lend => exact kept (Stack.outline_takeFor lend.id _)
  | giveBack lend => exact kept (Stack.outline_onFrame lend.owner (by intro; rfl) _)
  | endStorage => exact absurd trivial spared
  | arm | disarm | pack | unpack | make | finish | startLeaving | keepBack => rfl

theorem Does.owner_leaves {mounts : List (Mount V)} (represents : Represents mounts first)
    (does : Does first deed last) (shuts : deed.Shuts key owner) :
    owner ∉ last.world.thread.owners key := by
  cases does with
  | @close hand lends world closer type rest tallies =>
      obtain ⟨rfl, rfl⟩ := shuts
      change closer ∉ (world.thread.setStack type _).owners type
      by_cases gone : world.thread.store = none
      · rw [Thread.setStack_gone gone, Thread.owners, Thread.stack_gone gone]
        exact List.not_mem_nil
      · rw [Thread.owners, Thread.stack_setStack gone]
        exact Stack.owner_closeFrames (represents.opened_once gone type)
          (represents.owners_nodup type)
  | endStorage => exact List.not_mem_nil
  | other | leave | arm | disarm | pack | unpack | make | finish | startLeaving | enter | put | take
  | count | lend | giveBack | keepBack => exact shuts.elim

theorem Does.owner_stays_iff {mounts : List (Mount V)} (represents : Represents mounts first)
    (does : Does first deed last) (drawn : owner.value ≤ first.world.thread.lastToken) :
    owner ∈ last.world.thread.owners key ↔
      owner ∈ first.world.thread.owners key ∧ ¬deed.Shuts key owner := by
  by_cases shuts : deed.Shuts key owner
  · exact iff_of_false (does.owner_leaves represents shuts) fun both => both.2 shuts
  · rw [does.owner_stays drawn shuts, and_iff_left shuts]

theorem Course.owner_stays_iff {deeds : List (Deed V)} (course : Course first deeds last)
    {mounts : List (Mount V)} (represents : Represents mounts first)
    (drawn : owner.value ≤ first.world.thread.lastToken) :
    owner ∈ last.world.thread.owners key ↔
      owner ∈ first.world.thread.owners key ∧ ∀ deed ∈ deeds, ¬deed.Shuts key owner := by
  induction course generalizing mounts with
  | done => simp
  | step does rest ih =>
      obtain ⟨middle, described, -⟩ := represents.step does
      rw [ih described (drawn.trans does.lastToken_le), List.forall_mem_cons, ← and_assoc,
        does.owner_stays_iff represents drawn]
  | @thread given kept brought lends world later within deeds last portable inner ended rest _ ih =>
      rw [ih (represents.wait portable later) drawn, List.forall_mem_append]
      refine and_congr_right fun _ => (and_iff_right ?_).symm
      intro deed listed
      obtain ⟨_, -, rfl⟩ := List.mem_map.1 listed
      exact id

end Steps

/-- What becomes of a value that is lent in `world`: the borrower starts in `borrowed` and leaves
`ended`, and `final` is what there is once the value was offered back. -/
structure Lend.Returns (lend : Lend V) (world borrowed ended final : World V (Ledger V σ)) :
    Prop where
  emptied : ∃ top below, (world.thread.stack lend.key).frames = top :: below ∧
    top.owner = lend.owner ∧ top.held = some (lend.id, lend.value) ∧
    (borrowed.thread.stack lend.key).frames = { top with held := none } :: below
  others : ∀ other ≠ lend.key, borrowed.thread.stack other = world.thread.stack other
  /-- The frame of the lender is open and empty, wherever it sits: it holds the pair again, and
  nothing else is touched. -/
  back : ∀ above frame below, (ended.thread.stack lend.key).frames = above ++ frame :: below →
    frame.owner = lend.owner → frame.held = none →
    (final.thread.stack lend.key).frames =
        above ++ { frame with held := some (lend.id, lend.value) } :: below ∧
      (∀ other ≠ lend.key, final.thread.stack other = ended.thread.stack other) ∧
      final.host = ended.host
  /-- The frame holds another value: that one stays, and the lent one ends. -/
  refilled : ∀ frame ∈ (ended.thread.stack lend.key).frames, frame.owner = lend.owner →
    frame.held ≠ none → final = ended.noteEnded ⟨lend.key, lend.value⟩
  /-- The frame is gone: the value ends, and no other frame gets it. -/
  closed : lend.owner ∉ ended.thread.owners lend.key → final = ended.noteEnded ⟨lend.key, lend.value⟩
  /-- A borrower who leaves the stack as it was given is followed by the stack that was lent from. -/
  unchanged : ended.thread.stack lend.key = borrowed.thread.stack lend.key →
    final.thread.stack lend.key = world.thread.stack lend.key ∧
      ∀ other ≠ lend.key, final.thread.stack other = ended.thread.stack other
  restored : ended.thread = borrowed.thread → final.thread = world.thread

section Borrowing

variable {lend : Lend V} {world ended : World V (Ledger V σ)}

theorem Thread.owners_above {thread : Thread V} {key : Key V} {above below : List (Frame key.Value)}
    {frame : Frame key.Value} (distinct : (thread.owners key).Nodup)
    (split : (thread.stack key).frames = above ++ frame :: below) :
    ∀ other ∈ above, other.owner ≠ frame.owner := by
  intro other inside same
  rw [Thread.owners, split, List.map_append, List.map_cons, List.nodup_middle,
    List.nodup_cons] at distinct
  refine distinct.1 (List.mem_append_left _ ?_)
  rw [← same]
  exact List.mem_map_of_mem inside

/-- The lent frame is the innermost one, and the borrower finds it empty. -/
theorem lent_apart (lend : Lend V) {top : Frame lend.key.Value}
    (innermost : (world.thread.stack lend.key).top? = some top)
    (held : (world.thread.stack lend.key).valueFor lend.id = some lend.value) :
    ∃ below, world.thread.stack lend.key = ⟨top :: below⟩ ∧
      top.held = some (lend.id, lend.value) ∧
      (Slot.takeFor lend.key lend.id world).2.thread.stack lend.key =
        ⟨{ top with held := none } :: below⟩ := by
  obtain ⟨below, shape⟩ : ∃ below, world.thread.stack lend.key = ⟨top :: below⟩ := by
    rcases stack : world.thread.stack lend.key with ⟨_ | ⟨first, below⟩⟩ <;>
      rw [stack] at innermost <;> cases innermost
    exact ⟨below, rfl⟩
  have inside : top.held = some (lend.id, lend.value) := by
    rw [shape] at held
    exact Frame.held_of_valueFor held
  have alive : world.thread.store ≠ none := Thread.alive_of_frames (by rw [shape]; simp)
  have emptied : top.without lend.id = { top with held := none } := by
    simp [Frame.without, Frame.holds, Frame.id, inside, Frame.cleared]
  refine ⟨below, shape, inside, ?_⟩
  change (world.thread.setStack lend.key _).stack lend.key = _
  rw [Thread.stack_setStack alive, shape, ← emptied]
  rfl

variable [Client V σ]

theorem restore_back {above below : List (Frame lend.key.Value)} {frame : Frame lend.key.Value}
    (distinct : (world.thread.owners lend.key).Nodup)
    (split : (world.thread.stack lend.key).frames = above ++ frame :: below)
    (theirs : frame.owner = lend.owner) (empty : frame.held = none) :
    (Slot.restore lend.key lend.owner lend.id lend.value world).2 =
      { world with
        thread := world.thread.setStack lend.key
          ⟨above ++ { frame with held := some (lend.id, lend.value) } :: below⟩ } := by
  have apart := Thread.owners_above distinct split
  rw [theirs] at apart
  have shape : world.thread.stack lend.key = ⟨above ++ frame :: below⟩ := congrArg Stack.mk split
  have welcome : lend.isWelcome world = true := by
    rw [Lend.isWelcome_iff, shape, Stack.frameOf?_split apart theirs]
    exact ⟨frame, rfl, empty⟩
  rw [restore_apply, if_pos welcome, Lend.giveBack, shape, Stack.onFrame_split _ apart theirs]
  rfl

theorem restore_refused (refused : ∀ frame,
      (world.thread.stack lend.key).frameOf? lend.owner = some frame → frame.held ≠ none) :
    (Slot.restore lend.key lend.owner lend.id lend.value world).2 =
      (release lend.key lend.value world).2 := by
  have unwelcome : ¬lend.isWelcome world = true := by
    rw [Lend.isWelcome_iff]
    rintro ⟨frame, found, empty⟩
    exact refused frame found empty
  rw [restore_apply, if_neg unwelcome]

theorem lend_returns (lend : Lend V) {top : Frame lend.key.Value}
    (innermost : (world.thread.stack lend.key).top? = some top) (theirs : top.owner = lend.owner)
    (held : (world.thread.stack lend.key).valueFor lend.id = some lend.value)
    (inert : ∀ world : World V (Ledger V σ),
      (release lend.key lend.value world).2 = world.noteEnded ⟨lend.key, lend.value⟩)
    (distinct : (ended.thread.owners lend.key).Nodup) :
    lend.Returns world (Slot.takeFor lend.key lend.id world).2 ended
      (Slot.restore lend.key lend.owner lend.id lend.value ended).2 := by
  obtain ⟨below, shape, inside, empty⟩ := lent_apart lend innermost held
  have alive {frame : Frame lend.key.Value} {above below : List (Frame lend.key.Value)}
      (split : (ended.thread.stack lend.key).frames = above ++ frame :: below) :
      ended.thread.store ≠ none := Thread.alive_of_frames (by rw [split]; simp)
  -- Offered back to the stack that the borrower was given, the value completes the stack lent from.
  have whole (same : ended.thread.stack lend.key =
      (Slot.takeFor lend.key lend.id world).2.thread.stack lend.key) :
      ended.thread.store ≠ none ∧ (Slot.restore lend.key lend.owner lend.id lend.value ended).2 =
        { ended with thread := ended.thread.setStack lend.key (world.thread.stack lend.key) } := by
    have split : (ended.thread.stack lend.key).frames = [] ++ { top with held := none } :: below :=
      congrArg Stack.frames (same.trans empty)
    refine ⟨alive split, ?_⟩
    rw [restore_back distinct split theirs rfl, ← inside, shape]
    rfl
  refine {
    emptied :=
      ⟨top, below, congrArg Stack.frames shape, theirs, inside, congrArg Stack.frames empty⟩
    others := fun other differ => Thread.stack_setStack_other _ _ differ
    back := ?back
    refilled := ?refilled
    closed := ?closed
    unchanged := ?unchanged
    restored := ?restored }
  case back =>
    intro above frame below split owned vacant
    rw [restore_back distinct split owned vacant]
    exact ⟨congrArg Stack.frames (Thread.stack_setStack (alive split) _ _),
      fun other differ => Thread.stack_setStack_other _ _ differ, rfl⟩
  case refilled =>
    intro frame listed owned filled
    obtain ⟨above, below, split⟩ := List.append_of_mem listed
    have apart := Thread.owners_above distinct split
    rw [owned] at apart
    have stack : ended.thread.stack lend.key = ⟨above ++ frame :: below⟩ := congrArg Stack.mk split
    rw [restore_refused, inert]
    intro found first
    rw [stack, Stack.frameOf?_split apart owned] at first
    cases first
    exact filled
  case closed =>
    intro gone
    rw [restore_refused, inert]
    intro frame found
    refine absurd (List.mem_map.2 ⟨frame, List.mem_of_find?_eq_some found, ?_⟩) gone
    simpa using List.find?_some found
  case unchanged =>
    intro same
    obtain ⟨stored, back⟩ := whole same
    rw [back]
    exact ⟨Thread.stack_setStack stored _ _,
      fun other differ => Thread.stack_setStack_other _ _ differ⟩
  case restored =>
    intro same
    rw [(whole (by rw [same])).2, same]
    change (world.thread.setStack lend.key _).setStack lend.key _ = world.thread
    rw [Thread.setStack_setStack _ _ _ (by rw [shape]; rfl), Thread.setStack_self]

theorem lend_looking {β : Type} (key : Key V) (id : Nat) (look : key.Value → β)
    (world : World V (Ledger V σ)) :
    Slot.lend key id (fun value => (pure (look value) : Act V (Ledger V σ) β)) world =
      (.ok (((world.thread.stack key).valueFor id).map look), world) := by
  cases held : (world.thread.stack key).valueFor id with
  | none => exact lendNothing_apply held
  | some value => exact lend_reading held rfl

end Borrowing

section Reachable

variable [Client V σ] {α : Type} {given hand after : Hand V} {lends : List (Lend V)}
  {deeds : List (Deed V)} {start world : World V (Ledger V σ)}

/-- The borrower's own course, and what it tells about the frame of the lender. -/
structure Lend.Followed (lend : Lend V) (own : List (Deed V)) (first last : Scene V σ) : Prop where
  runs : Course first own last
  open_iff : ∀ further, Course first further last →
    (lend.owner ∈ last.world.thread.owners lend.key ↔
      ∀ deed ∈ further, ¬deed.Shuts lend.key lend.owner)

/-- A value is lent in whatever state a thread has reached. If the innermost frame has none for the
failure, nothing happens. A test that only looks changes nothing. Otherwise the borrower, whether it
returns or unwinds, is followed by what `Lend.Returns` says, and its deeds tell whether the frame is
still open. -/
theorem lending_gives_back (key : Key V) (id : Nat)
    (use : key.Value → Act V (Ledger V σ) α) (fresh : start.thread = .fresh V)
    (portable : ∀ holding ∈ given, holding.isPortable = true)
    (reached : Course ⟨given, [], start⟩ deeds ⟨hand, lends, world⟩) :
    ((world.thread.stack key).valueFor id = none → Slot.lend key id use world = (.ok none, world)) ∧
    (∀ {β : Type} (look : key.Value → β),
      Slot.lend key id (fun value => (pure (look value) : Act V (Ledger V σ) β)) world =
        (.ok (((world.thread.stack key).valueFor id).map look), world)) ∧
    ∀ value own, (world.thread.stack key).valueFor id = some value →
      Linear hand (use value) (Slot.takeFor key id world).2 own after →
      (use value (Slot.takeFor key id world).2).1 ≠ .error .aborted →
      (∀ world : World V (Ledger V σ), (release key value world).2 = world.noteEnded ⟨key, value⟩) →
      ∃ owner, (Slot.lend key id use world).1 = some <$> (use value (Slot.takeFor key id world).2).1 ∧
        Lend.Returns ⟨key, owner, id, value⟩ world (Slot.takeFor key id world).2
          (use value (Slot.takeFor key id world).2).2 (Slot.lend key id use world).2 ∧
        Lend.Followed ⟨key, owner, id, value⟩ own
          ⟨hand, ⟨key, owner, id, value⟩ :: lends, (Slot.takeFor key id world).2⟩
          ⟨after, ⟨key, owner, id, value⟩ :: lends, (use value (Slot.takeFor key id world).2).2⟩ := by
  refine ⟨lendNothing_apply, fun look => lend_looking key id look world, ?_⟩
  intro value own held linear finished inert
  obtain ⟨top, innermost⟩ := top_of_valueFor held
  let lend : Lend V := ⟨key, top.owner, id, value⟩
  obtain ⟨below, shape, -, emptied⟩ := lent_apart lend innermost held
  -- Tokens are drawn once, so the mounts keep describing the thread while the borrower runs.
  obtain ⟨mounts, represents, -⟩ := (Represents.fresh fresh portable).course reached
  obtain ⟨lent, described, -⟩ := represents.step (.lend lend innermost rfl held)
  have opened : top.owner ∈ (Slot.takeFor key id world).2.thread.owners key := by
    rw [Thread.owners, emptied]
    exact List.mem_cons_self
  have course := linear.settles.finished finished (lend :: lends)
  obtain ⟨left, leaves, -⟩ := described.course course
  have final : Slot.lend key id use world = (some <$> (use value (Slot.takeFor key id world).2).1,
      (Slot.restore key top.owner id value (use value (Slot.takeFor key id world).2).2).2) := by
    rw [lend_apply innermost held, map_apply, ensuring_quietly_apply]
    rcases result : (use value (Slot.takeFor key id world).2).1 with (object | _) | answer
    · rfl
    · exact absurd result finished
    · rfl
  refine ⟨top.owner, congrArg Prod.fst final, ?_, course, fun further course => ?_⟩
  · rw [final]
    exact lend_returns lend innermost rfl held inert (leaves.owners_nodup key)
  · rw [course.owner_stays_iff described (described.owner_drawn opened)]
    exact and_iff_right opened

end Reachable

namespace Scenario

def codeScope : Scope application := ⟨.ofKeys [Topic.ofKind .code]⟩

def keepCode : Act application (Ledger application Unit) (OpenScope application) := do
  let scope ← quietly codeScope.enter
  quietly (make .code (5 : Int))
  discard (quietly (record (Topic.ofKind .code) (5 : Int) echoed))
  return scope

theorem keepCode_linear :
    ∃ deeds, Linear 0 keepCode dawn deeds {.scope ⟨codeScope.interest, .numbered 1, false⟩} := by
  have records : ∀ (hand : Hand application) (world : World application (Ledger application Unit)),
      Conducts (.value (payload .code (5 : Int)) ::ₘ hand)
        (discard (record (σ := Ledger application Unit) (Topic.ofKind .code) (5 : Int) echoed))
        world hand :=
    fun _ _ => .ignore (record_conducts (Topic.ofKind .code) (5 : Int) echoed)
  have makes : Conducts {.scope ⟨codeScope.interest, .numbered 1, false⟩} _
      (codeScope.enter dawn).2 _ := make_conducts .code (5 : Int) _
  obtain ⟨_, making⟩ := makes
  obtain ⟨_, recording⟩ := records _ _
  exact ⟨_, .bind (.enter codeScope) rfl
    (.bind making rfl (.bind recording rfl (.idle (.refl _))))⟩

/-- The borrower enters a scope on top of the frame that lends; the code is back beneath it. -/
theorem code_goes_back_beneath :
    ((Slot.lend (Topic.ofKind .code) echoed.raw (fun _ => quietly codeScope.enter)
      (keepCode dawn).2).2.thread.stack (Topic.ofKind .code)).frames =
        [⟨.numbered 2, 1, none⟩, ⟨.numbered 1, 1, some (echoed.raw, (5 : Int))⟩] := by
  have held : ((keepCode dawn).2.thread.stack (Topic.ofKind .code)).valueFor echoed.raw =
      some (5 : Int) := rfl
  obtain ⟨deeds, linear⟩ := keepCode_linear
  have course := linear.settles.finished (fun aborted => nomatch aborted) []
  have portable : ∀ holding ∈ (0 : Hand application), holding.isPortable = true := by simp
  obtain ⟨-, -, lends⟩ := lending_gives_back (Topic.ofKind .code) echoed.raw
    (fun _ => quietly codeScope.enter) rfl portable course
  obtain ⟨owner, -, returns, -⟩ := lends (5 : Int) _ held (.enter codeScope)
    (fun aborted => nomatch aborted) (fun _ => rfl)
  obtain ⟨top, below, shape, theirs, -, -⟩ := returns.emptied
  have first : Token.numbered 1 = top.owner := congrArg Frame.owner (List.cons_eq_cons.1 shape).1
  exact (returns.back [⟨.numbered 2, 1, none⟩] ⟨.numbered 1, 1, none⟩ [] rfl
    (first.trans theirs) rfl).1

end Scenario

end FaultRelay

import FaultRelay.Proofs.Discreet
import FaultRelay.Proofs.Outcome
import FaultRelay.Proofs.Outline

/-! Two runs that differ in what lies beneath. The runs started over different frames, and drew
different tokens, but the frames that came since hold the same values. Tokens of later scopes
correspond by the order they were drawn in. For some payload types each run stands on a frame of its
own, its floor, and whatever is below that frame is hidden: it may be anything, and differ. -/
namespace FaultRelay

variable {V : Vocabulary} {σ : Type}

theorem Stack.frameOf?_cons {α : Type} (owner : Token) (frame : Frame α) (below : List (Frame α)) :
    frameOf? ⟨frame :: below⟩ owner =
      if frame.owner = owner then some frame else frameOf? ⟨below⟩ owner := by
  unfold frameOf?
  split <;> rename_i theirs <;> simp [theirs]

theorem Stack.frameOf?_absent {α : Type} {owner : Token} {frames : List (Frame α)}
    (absent : ∀ frame ∈ frames, frame.owner ≠ owner) : frameOf? ⟨frames⟩ owner = none :=
  List.find?_eq_none.2 fun frame listed => by simpa using absent frame listed

theorem Stack.editFirst_absent {α : Type} {owner : Token} {edit : Frame α → Frame α}
    {frames : List (Frame α)} (absent : ∀ frame ∈ frames, frame.owner ≠ owner) :
    editFirst owner edit frames = frames := by
  induction frames with
  | nil => rfl
  | cons first rest ih =>
      obtain ⟨other, later⟩ := List.forall_mem_cons.1 absent
      rw [editFirst, if_neg other, ih later]

def Token.Within (drawn : Nat) (token : Token) : Prop := ∀ n, token = .numbered n → n ≤ drawn

theorem Token.not_within {drawn n : Nat} : ¬(Token.numbered (drawn + n + 1)).Within drawn := by
  intro within
  have bound := within _ rfl
  omega

structure Floor (α : Type) where
  owner : Token
  below : List (Frame α)

structure Floor.Sound {α : Type} (drawn : Nat) (floor : Floor α) : Prop where
  within : floor.owner.Within drawn
  below : ∀ frame ∈ floor.below, frame.owner.Within drawn ∧ frame.owner ≠ floor.owner

structure Link (V : Vocabulary) where
  left : Nat
  right : Nat
  floor : (key : Key V) → Option (Floor key.Value × Floor key.Value)
  sound : ∀ {key : Key V} {floors}, floor key = some floors →
    floors.1.Sound left ∧ floors.2.Sound right

namespace Link

variable {link : Link V} {key : Key V}

inductive Twin (link : Link V) (key : Key V) : Token → Token → Prop
  | later (n : Nat) : Twin link key (.numbered (link.left + n + 1)) (.numbered (link.right + n + 1))
  | floor {floors} (laid : link.floor key = some floors) :
      Twin link key floors.1.owner floors.2.owner
  | shared {token : Token} (bare : link.floor key = none) (left : token.Within link.left)
      (right : token.Within link.right) : Twin link key token token

namespace Twin

variable {owner owner' other other' : Token}

theorem same_iff (twin : link.Twin key owner owner') (another : link.Twin key other other') :
    owner = other ↔ owner' = other' := by
  have never : ∀ {drawn n : Nat} {token : Token}, token.Within drawn →
      token ≠ .numbered (drawn + n + 1) := fun within same => Token.not_within (same ▸ within)
  cases twin with
  | later n =>
      cases another with
      | later m => simp only [Token.numbered.injEq]; omega
      | floor laid =>
          obtain ⟨left, right⟩ := link.sound laid
          exact iff_of_false (never left.within).symm (never right.within).symm
      | shared _ left right => exact iff_of_false (never left).symm (never right).symm
  | floor laid =>
      obtain ⟨left, right⟩ := link.sound laid
      cases another with
      | later m => exact iff_of_false (never left.within) (never right.within)
      | floor again =>
          rw [laid] at again
          cases again
          exact iff_of_true rfl rfl
      | shared bare =>
          rw [laid] at bare
          cases bare
  | shared bare left right =>
      cases another with
      | later m => exact iff_of_false (never left) (never right)
      | floor laid =>
          rw [laid] at bare
          cases bare
      | shared => exact Iff.rfl

/-- No owner that is known to both runs has a hidden frame. -/
theorem not_below (twin : link.Twin key owner owner') {floors}
    (laid : link.floor key = some floors) :
    (∀ frame ∈ floors.1.below, frame.owner ≠ owner) ∧
      ∀ frame ∈ floors.2.below, frame.owner ≠ owner' := by
  obtain ⟨left, right⟩ := link.sound laid
  cases twin with
  | later n =>
      exact ⟨fun frame listed same => Token.not_within (same ▸ (left.below frame listed).1),
        fun frame listed same => Token.not_within (same ▸ (right.below frame listed).1)⟩
  | floor again =>
      rw [laid] at again
      cases again
      exact ⟨fun frame listed => (left.below frame listed).2,
        fun frame listed => (right.below frame listed).2⟩
  | shared bare =>
      rw [laid] at bare
      cases bare

end Twin

inductive Paired (link : Link V) (key : Key V) :
    List (Frame key.Value) → List (Frame key.Value) → Prop
  | bottom (bare : link.floor key = none) : Paired link key [] []
  | floor {floors} (laid : link.floor key = some floors) (refs : Nat)
      (held : Option (Nat × key.Value)) :
      Paired link key (⟨floors.1.owner, refs, held⟩ :: floors.1.below)
        (⟨floors.2.owner, refs, held⟩ :: floors.2.below)
  | frame {owner owner' : Token} {below below' : List (Frame key.Value)}
      (twin : link.Twin key owner owner') (refs : Nat) (held : Option (Nat × key.Value))
      (rest : Paired link key below below') :
      Paired link key (⟨owner, refs, held⟩ :: below) (⟨owner', refs, held⟩ :: below')

namespace Paired

variable {frames frames' : List (Frame key.Value)}

/-- Either nothing is open in both runs, or the innermost frames have one owner and hold the same. -/
theorem top (paired : link.Paired key frames frames') :
    frames = [] ∧ frames' = [] ∨ ∃ owner owner' refs held below below',
      frames = ⟨owner, refs, held⟩ :: below ∧ frames' = ⟨owner', refs, held⟩ :: below' ∧
        link.Twin key owner owner' := by
  cases paired with
  | bottom => exact .inl ⟨rfl, rfl⟩
  | floor laid refs held => exact .inr ⟨_, _, refs, held, _, _, rfl, rfl, .floor laid⟩
  | frame twin refs held rest => exact .inr ⟨_, _, refs, held, _, _, rfl, rfl, twin⟩

theorem onTop (paired : link.Paired key frames frames') {edit : Frame key.Value → Frame key.Value}
    (change : Option (Nat × key.Value) → Option (Nat × key.Value))
    (edits : ∀ frame, edit frame = { frame with held := change frame.held }) :
    link.Paired key (Stack.onTop edit ⟨frames⟩).frames (Stack.onTop edit ⟨frames'⟩).frames := by
  cases paired with
  | bottom bare => exact .bottom bare
  | floor laid refs held => simpa only [Stack.onTop, edits] using .floor laid refs (change held)
  | frame twin refs held rest =>
      simpa only [Stack.onTop, edits] using .frame twin refs (change held) rest

theorem valueFor (paired : link.Paired key frames frames') (id : Nat) :
    (⟨frames⟩ : Stack key.Value).valueFor id = (⟨frames'⟩ : Stack key.Value).valueFor id := by
  rcases paired.top with ⟨rfl, rfl⟩ | ⟨_, _, _, _, _, _, rfl, rfl, _⟩ <;> rfl

theorem isOpen (paired : link.Paired key frames frames') :
    (⟨frames⟩ : Stack key.Value).isOpen = (⟨frames'⟩ : Stack key.Value).isOpen := by
  rcases paired.top with ⟨rfl, rfl⟩ | ⟨_, _, _, _, _, _, rfl, rfl, _⟩ <;> rfl

theorem put (paired : link.Paired key frames frames') (id : Nat) (value : key.Value) :
    (Stack.put id value ⟨frames⟩).1 = (Stack.put id value ⟨frames'⟩).1 ∧
      link.Paired key (Stack.put id value ⟨frames⟩).2.frames
        (Stack.put id value ⟨frames'⟩).2.frames := by
  have answers : ∀ frames : List (Frame key.Value),
      (Stack.put id value ⟨frames⟩).2 = Stack.onTop (·.put id value) ⟨frames⟩ := by
    rintro (_ | ⟨top, below⟩) <;> rfl
  constructor
  · rcases paired.top with ⟨rfl, rfl⟩ | ⟨_, _, _, _, _, _, rfl, rfl, _⟩ <;> rfl
  · rw [answers, answers]
    exact paired.onTop (fun _ => some (id, value)) fun _ => rfl

theorem takeFor (paired : link.Paired key frames frames') (id : Nat) :
    (Stack.takeFor id ⟨frames⟩).1 = (Stack.takeFor id ⟨frames'⟩).1 ∧
      link.Paired key (Stack.takeFor id ⟨frames⟩).2.frames
        (Stack.takeFor id ⟨frames'⟩).2.frames := by
  refine ⟨paired.valueFor id, paired.onTop
    (fun held => if held.map Prod.fst == some id then none else held) fun frame => ?_⟩
  unfold Frame.without
  split
  · rename_i theirs
    rw [if_pos (show (frame.held.map Prod.fst == some id) = true from theirs)]
    rfl
  · rename_i others
    rw [if_neg (show ¬(frame.held.map Prod.fst == some id) = true from others)]

theorem openFor (paired : link.Paired key frames frames') {owner owner' : Token}
    (twin : link.Twin key owner owner') :
    link.Paired key (Stack.openFrames owner frames) (Stack.openFrames owner' frames') := by
  have opened : link.Paired key (Frame.fresh owner :: frames) (Frame.fresh owner' :: frames') :=
    .frame twin 1 none paired
  unfold Stack.openFrames
  cases paired with
  | bottom => exact opened
  | floor laid refs held =>
      have same := (Twin.floor laid).same_iff twin
      simp only [same]
      split
      · exact .floor laid (refs + 1) held
      · exact opened
  | frame top refs held rest =>
      have same := top.same_iff twin
      simp only [same]
      split
      · exact .frame top (refs + 1) held rest
      · exact opened

theorem handDown (paired : link.Paired key frames frames') (held : Option (Nat × key.Value)) :
    (Stack.handDown held frames).1 = (Stack.handDown held frames').1 ∧
      link.Paired key (Stack.handDown held frames).2 (Stack.handDown held frames').2 := by
  rcases held with _ | ⟨id, value⟩
  · exact ⟨rfl, paired⟩
  · cases paired with
    | bottom bare => exact ⟨rfl, .bottom bare⟩
    | floor laid refs held => exact ⟨rfl, .floor laid refs (some (id, value))⟩
    | frame twin refs held rest => exact ⟨rfl, .frame twin refs (some (id, value)) rest⟩

/-- Only an owner that is later than the link closes; floors stay. -/
theorem close (paired : link.Paired key frames frames') (n : Nat) :
    (Stack.closeFrames (.numbered (link.left + n + 1)) frames).1 =
        (Stack.closeFrames (.numbered (link.right + n + 1)) frames').1 ∧
      link.Paired key (Stack.closeFrames (.numbered (link.left + n + 1)) frames).2
        (Stack.closeFrames (.numbered (link.right + n + 1)) frames').2 := by
  have closing : link.Twin key _ _ := .later n
  induction paired with
  | bottom bare => exact ⟨rfl, .bottom bare⟩
  | @floor floors laid refs held =>
      obtain ⟨left, right⟩ := link.sound laid
      obtain ⟨below, below'⟩ := closing.not_below laid
      have other : floors.1.owner ≠ .numbered (link.left + n + 1) := fun same =>
        Token.not_within (same ▸ left.within)
      have other' : floors.2.owner ≠ .numbered (link.right + n + 1) := fun same =>
        Token.not_within (same ▸ right.within)
      rw [Stack.closeFrames_absent (List.forall_mem_cons.2 ⟨other, below⟩),
        Stack.closeFrames_absent (List.forall_mem_cons.2 ⟨other', below'⟩)]
      exact ⟨rfl, .floor laid refs held⟩
  | frame twin refs held rest ih =>
      have same := twin.same_iff closing
      unfold Stack.closeFrames
      simp only [same]
      split
      · split
        · exact ⟨rfl, .frame twin (refs - 1) held rest⟩
        · exact rest.handDown held
      · exact ⟨ih.1, .frame twin refs held ih.2⟩

theorem frameOf? (paired : link.Paired key frames frames') {owner owner' : Token}
    (twin : link.Twin key owner owner') :
    ((⟨frames⟩ : Stack key.Value).frameOf? owner).map Frame.held =
      ((⟨frames'⟩ : Stack key.Value).frameOf? owner').map Frame.held := by
  induction paired with
  | bottom => rfl
  | floor laid refs held =>
      have same := (Twin.floor laid).same_iff twin
      obtain ⟨below, below'⟩ := twin.not_below laid
      rw [Stack.frameOf?_cons, Stack.frameOf?_cons, Stack.frameOf?_absent below,
        Stack.frameOf?_absent below']
      simp only [same]
      split <;> rfl
  | frame top refs held rest ih =>
      have same := top.same_iff twin
      rw [Stack.frameOf?_cons, Stack.frameOf?_cons]
      simp only [same]
      split
      · rfl
      · exact ih

theorem onFrame (paired : link.Paired key frames frames') {owner owner' : Token}
    (twin : link.Twin key owner owner') (id : Nat) (value : key.Value) :
    link.Paired key (Stack.editFirst owner (·.put id value) frames)
      (Stack.editFirst owner' (·.put id value) frames') := by
  induction paired with
  | bottom bare => exact .bottom bare
  | floor laid refs held =>
      have same := (Twin.floor laid).same_iff twin
      obtain ⟨below, below'⟩ := twin.not_below laid
      unfold Stack.editFirst
      simp only [same]
      split
      · exact .floor laid refs (some (id, value))
      · rw [Stack.editFirst_absent below, Stack.editFirst_absent below']
        exact .floor laid refs held
  | frame top refs held rest ih =>
      have same := top.same_iff twin
      unfold Stack.editFirst
      simp only [same]
      split
      · exact .frame top refs (some (id, value)) rest
      · exact .frame top refs held ih

end Paired

end Link

section Worlds

variable [Discreet V σ]

/-- Two worlds that differ in what lies beneath only. -/
structure Link.Alike (link : Link V) (world world' : World V σ) : Prop where
  process : world.process = world'.process
  tokens : ∃ n, world.thread.lastToken = link.left + n ∧ world'.thread.lastToken = link.right + n
  tallying : world.thread.tallying = world'.thread.tallying
  current : world.thread.current = world'.thread.current
  reserved : world.thread.reserved = world'.thread.reserved
  unwindings : world.thread.unwindings = world'.thread.unwindings
  gone : world.thread.store = none ↔ world'.thread.store = none
  frames : ∀ key, link.Paired key (world.thread.stack key).frames (world'.thread.stack key).frames
  host : Discreet.Same V world.host world'.host

namespace Link.Alike

variable {link : Link V} {world world' : World V σ} {key : Key V}

theorem valueFor (alike : link.Alike world world') (key : Key V) (id : Nat) :
    (world.thread.stack key).valueFor id = (world'.thread.stack key).valueFor id :=
  (alike.frames key).valueFor id

theorem setStack (alike : link.Alike world world') {stack stack' : Stack key.Value}
    (paired : link.Paired key stack.frames stack'.frames) :
    link.Alike { world with thread := world.thread.setStack key stack }
      { world' with thread := world'.thread.setStack key stack' } := by
  by_cases gone : world.thread.store = none
  · rw [Thread.setStack_gone gone, Thread.setStack_gone (alike.gone.1 gone)]
    exact alike
  · have alive' : world'.thread.store ≠ none := fun gone' => gone (alike.gone.2 gone')
    refine { alike with
      gone := iff_of_false (Thread.setStack_alive gone _ _) (Thread.setStack_alive alive' _ _)
      frames := fun other => ?_ }
    by_cases here : other = key
    · subst here
      change link.Paired other ((world.thread.setStack other stack).stack other).frames
        ((world'.thread.setStack other stack').stack other).frames
      rw [Thread.stack_setStack gone, Thread.stack_setStack alive']
      exact paired
    · change link.Paired other ((world.thread.setStack key stack).stack other).frames
        ((world'.thread.setStack key stack').stack other).frames
      rw [Thread.stack_setStack_other _ _ here, Thread.stack_setStack_other _ _ here]
      exact alike.frames other

theorem emit (alike : link.Alike world world') (event event' : Event) :
    link.Alike (emit event world).2 (FaultRelay.emit event' world').2 := by
  have same : Discreet.Same V (Observer.observe event world.host)
      (Observer.observe event' world'.host) :=
    Discreet.same.trans (Discreet.told event world.host)
      (Discreet.same.trans alike.host (Discreet.same.symm (Discreet.told event' world'.host)))
  exact { alike with host := same }

end Link.Alike

end Worlds

end FaultRelay

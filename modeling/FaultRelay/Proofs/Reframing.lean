import FaultRelay.Proofs.Outline

/-! What comes down to the frame of a block while scopes inside of it are opened and closed. Each scope
that is closed hands what it holds to the frame beneath, so that the innermost pair arrives there. -/
namespace FaultRelay

variable {block : Token}

/-- Only frames that are not of `block` are opened and closed. -/
inductive Stack.Reframed {ε : Type} (block : Token) : Stack ε → Stack ε → Prop
  | refl (stack : Stack ε) : Reframed block stack stack
  | opened {first last : Stack ε} {owner : Token} (apart : owner ≠ block)
      (reframed : Reframed block first last) : Reframed block first (last.openFor owner)
  | closed {first last : Stack ε} {owner : Token} (apart : owner ≠ block)
      (reframed : Reframed block first last) : Reframed block first (last.close owner).2

/-- The innermost pair is `pair`, and its frame is not beneath that of `block`. -/
inductive Stack.Bears {ε : Type} (block : Token) (pair : Nat × ε) : List (Frame ε) → Prop
  | here {frame : Frame ε} {below : List (Frame ε)} (held : frame.held = some pair)
      (inside : block ∈ (frame :: below).map Frame.owner) : Bears block pair (frame :: below)
  | beneath {frame : Frame ε} {below : List (Frame ε)} (empty : frame.held = none)
      (bears : Bears block pair below) : Bears block pair (frame :: below)

namespace Stack

variable {ε : Type} {pair : Nat × ε} {first last : Stack ε} {frames : List (Frame ε)} {owner : Token}

theorem Bears.inside (bears : Bears block pair frames) : block ∈ frames.map Frame.owner := by
  induction bears with
  | here _ inside => exact inside
  | beneath _ _ ih => exact List.mem_cons_of_mem _ ih

theorem Bears.openFrames (bears : Bears block pair frames) (owner : Token) :
    Bears block pair (Stack.openFrames owner frames) := by
  cases bears with
  | @here frame below held inside =>
      by_cases theirs : frame.owner = owner
      · rw [Stack.openFrames, if_pos theirs]
        exact .here held inside
      · rw [Stack.openFrames, if_neg theirs]
        exact .beneath rfl (.here held inside)
  | @beneath frame below empty bears =>
      by_cases theirs : frame.owner = owner
      · rw [Stack.openFrames, if_pos theirs]
        exact .beneath empty bears
      · rw [Stack.openFrames, if_neg theirs]
        exact .beneath rfl (.beneath empty bears)

/-- A frame that is closed hands its pair to the one beneath, which is not beneath that of `block`
either. -/
theorem Bears.closeFrames (bears : Bears block pair frames) (apart : owner ≠ block) :
    Bears block pair (Stack.closeFrames owner frames).2 := by
  induction bears with
  | @here frame below held inside =>
      have kept := (mem_owners_closeFrames apart).2 inside
      unfold Stack.closeFrames at kept ⊢
      by_cases theirs : frame.owner = owner
      · rw [if_pos theirs] at kept ⊢
        by_cases shared : 1 < frame.refs
        · rw [if_pos shared]
          exact .here held inside
        · rw [if_neg shared, held] at kept ⊢
          cases below with
          | nil => cases kept
          | cons outer rest => exact .here rfl kept
      · rw [if_neg theirs] at kept ⊢
        exact .here held kept
  | @beneath frame below empty bears ih =>
      unfold Stack.closeFrames
      by_cases theirs : frame.owner = owner
      · rw [if_pos theirs]
        by_cases shared : 1 < frame.refs
        · rw [if_pos shared]
          exact .beneath empty bears
        · rw [if_neg shared, empty]
          exact bears
      · rw [if_neg theirs]
        exact .beneath empty ih

theorem Reframed.bears (reframed : Reframed block first last)
    (bears : Bears block pair first.frames) : Bears block pair last.frames := by
  induction reframed with
  | refl => exact bears
  | @opened _ owner _ _ ih => exact ih.openFrames owner
  | closed apart _ ih => exact ih.closeFrames apart

theorem Reframed.inside (reframed : Reframed block first last)
    (inside : block ∈ last.frames.map Frame.owner) : block ∈ first.frames.map Frame.owner := by
  induction reframed with
  | refl => exact inside
  | @opened last owner apart _ ih =>
      refine ih ?_
      obtain ⟨_ | ⟨top, below⟩⟩ := last
      · exact absurd (List.mem_singleton.1 inside).symm apart
      · by_cases theirs : top.owner = owner
        · rwa [openFor, openFrames, if_pos theirs] at inside
        · rw [openFor, openFrames, if_neg theirs] at inside
          exact (List.mem_cons.1 inside).resolve_left fun same => apart same.symm
  | closed apart _ ih => exact ih ((mem_owners_closeFrames apart).1 inside)

theorem Reframed.held (reframed : Reframed block first last) {top top' : Frame ε}
    {below below' : List (Frame ε)} (start : first.frames = top :: below)
    (held : top.held = some pair) (finish : last.frames = top' :: below')
    (own : top'.owner = block) (once : block ∉ below'.map Frame.owner) : top'.held = some pair := by
  have inside : block ∈ first.frames.map Frame.owner :=
    reframed.inside (by rw [finish]; exact List.mem_cons.2 (.inl own.symm))
  rw [start] at inside
  have bears := reframed.bears (by rw [start]; exact .here held inside)
  rw [finish] at bears
  cases bears with
  | here held' => exact held'
  | beneath _ bears => exact absurd bears.inside once

theorem isOpen_of_top {top : Frame ε} (innermost : last.top? = some top) : last.isOpen = true := by
  obtain ⟨_ | ⟨frame, below⟩⟩ := last
  · cases innermost
  · rfl

theorem valueFor_held {top : Frame ε} {tag : Nat} {value : ε} (innermost : last.top? = some top)
    (held : top.held = some (tag, value)) (id : Nat) :
    last.valueFor id = if tag = id then some value else none := by
  simp [valueFor, innermost, Frame.valueFor, Frame.holds, Frame.id, Frame.value?, held]

/-- The frames were left alone, or those inside of `block` opened and closed until its own was the
innermost. -/
inductive Brought (block : Token) (first : Stack ε) : Stack ε → Prop
  | still : Brought block first first
  | down {last : Stack ε} {top : Frame ε} {below : List (Frame ε)}
      (reframed : Reframed block first last) (frames : last.frames = top :: below)
      (own : top.owner = block) (once : block ∉ below.map Frame.owner) : Brought block first last

theorem Brought.valueFor (brought : Brought block first last) {top : Frame ε} {tag : Nat} {value : ε}
    (innermost : first.top? = some top) (held : top.held = some (tag, value)) (id : Nat) :
    last.valueFor id = if tag = id then some value else none := by
  cases brought with
  | still => exact valueFor_held innermost held id
  | @down _ top' below' reframed frames own once =>
      obtain ⟨_ | ⟨outer, below⟩⟩ := first
      · cases innermost
      · cases innermost
        exact valueFor_held (congrArg List.head? frames)
          (reframed.held rfl held frames own once) id

end Stack

end FaultRelay

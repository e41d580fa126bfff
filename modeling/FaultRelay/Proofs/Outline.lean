import FaultRelay.Slot.Stack

/-! The outline of a stack: who owns its frames, and how often each was opened, without the values.
Only opening and closing change it. -/
namespace FaultRelay.Stack

variable {α : Type}

section Closing

variable {owner : Token} {above below frames : List (Frame α)} {frame : Frame α}

theorem closeFrames_absent (absent : ∀ frame ∈ frames, frame.owner ≠ owner) :
    closeFrames owner frames = (.notOpen, frames) := by
  induction frames with
  | nil => rfl
  | cons first rest ih =>
      obtain ⟨other, later⟩ := List.forall_mem_cons.1 absent
      rw [closeFrames, if_neg other, ih later]

theorem closeFrames_shared (apart : ∀ frame ∈ above, frame.owner ≠ owner)
    (theirs : frame.owner = owner) (shared : 1 < frame.refs) :
    closeFrames owner (above ++ frame :: below) =
      (.retained, above ++ { frame with refs := frame.refs - 1 } :: below) := by
  induction above with
  | nil => rw [List.nil_append, closeFrames, if_pos theirs, if_pos shared, List.nil_append]
  | cons first rest ih =>
      obtain ⟨other, later⟩ := List.forall_mem_cons.1 apart
      rw [List.cons_append, closeFrames, if_neg other, ih later]
      rfl

theorem closeFrames_last (apart : ∀ frame ∈ above, frame.owner ≠ owner)
    (theirs : frame.owner = owner) (last : ¬1 < frame.refs) :
    closeFrames owner (above ++ frame :: below) =
      ((handDown frame.held below).1, above ++ (handDown frame.held below).2) := by
  induction above with
  | nil => rw [List.nil_append, closeFrames, if_pos theirs, if_neg last, List.nil_append]
  | cons first rest ih =>
      obtain ⟨other, later⟩ := List.forall_mem_cons.1 apart
      rw [List.cons_append, closeFrames, if_neg other, ih later]
      rfl

/-- Either the owner has no frame, or the frames split at the innermost one. -/
theorem split_at_owner (owner : Token) (frames : List (Frame α)) :
    (∀ frame ∈ frames, frame.owner ≠ owner) ∨
      ∃ above frame below, frames = above ++ frame :: below ∧
        (∀ frame ∈ above, frame.owner ≠ owner) ∧ frame.owner = owner := by
  induction frames with
  | nil => exact .inl (by simp)
  | cons first rest ih =>
      by_cases theirs : first.owner = owner
      · exact .inr ⟨[], first, rest, rfl, by simp, theirs⟩
      · rcases ih with absent | ⟨above, frame, below, rfl, apart, owned⟩
        · exact .inl (List.forall_mem_cons.2 ⟨theirs, absent⟩)
        · exact .inr ⟨first :: above, frame, below, rfl, List.forall_mem_cons.2 ⟨theirs, apart⟩,
            owned⟩

theorem frameOf?_split (apart : ∀ frame ∈ above, frame.owner ≠ owner)
    (theirs : frame.owner = owner) : frameOf? ⟨above ++ frame :: below⟩ owner = some frame := by
  have passed : above.find? (fun frame => decide (frame.owner = owner)) = none :=
    List.find?_eq_none.2 fun frame inside => by simpa using apart frame inside
  rw [frameOf?, List.find?_append, passed, List.find?_cons_of_pos (by simpa using theirs)]
  rfl

theorem onFrame_split (edit : Frame α → Frame α) (apart : ∀ frame ∈ above, frame.owner ≠ owner)
    (theirs : frame.owner = owner) :
    onFrame owner edit ⟨above ++ frame :: below⟩ = ⟨above ++ edit frame :: below⟩ := by
  refine congrArg Stack.mk ?_
  induction above with
  | nil => rw [List.nil_append, editFirst, if_pos theirs, List.nil_append]
  | cons first rest ih =>
      obtain ⟨other, later⟩ := List.forall_mem_cons.1 apart
      rw [List.cons_append, editFirst, if_neg other, ih later]
      rfl

end Closing

theorem openFor_cases (owner : Token) (stack : Stack α) :
    (∃ top below, stack.frames = top :: below ∧ top.owner = owner ∧
        stack.openFor owner = ⟨{ top with refs := top.refs + 1 } :: below⟩) ∨
      stack.openFor owner = ⟨Frame.fresh owner :: stack.frames⟩ := by
  obtain ⟨_ | ⟨top, below⟩⟩ := stack
  · exact .inr rfl
  · by_cases theirs : top.owner = owner
    · exact .inl ⟨top, below, rfl, theirs, by rw [openFor, openFrames, if_pos theirs]⟩
    · exact .inr (by rw [openFor, openFrames, if_neg theirs])

def outlineOf (frames : List (Frame α)) : List (Token × Nat) :=
  frames.map fun frame => (frame.owner, frame.refs)

/-- Owner and number of openings of every frame, the innermost first. -/
def outline (stack : Stack α) : List (Token × Nat) := outlineOf stack.frames

theorem isOpen_eq_outline (stack : Stack α) : stack.isOpen = !stack.outline.isEmpty := by
  rw [isOpen, outline, outlineOf, List.isEmpty_map]

theorem depth_eq_length (stack : Stack α) : stack.depth = stack.outline.length := by
  rw [depth, outline, outlineOf, List.length_map]

theorem outline_onTop {edit : Frame α → Frame α}
    (same : ∀ frame, ((edit frame).owner, (edit frame).refs) = (frame.owner, frame.refs))
    (stack : Stack α) : (stack.onTop edit).outline = stack.outline := by
  obtain ⟨_ | ⟨top, below⟩⟩ := stack
  · rfl
  · simp only [onTop, outline, outlineOf, List.map_cons, same]

theorem outline_onFrame (owner : Token) {edit : Frame α → Frame α}
    (same : ∀ frame, ((edit frame).owner, (edit frame).refs) = (frame.owner, frame.refs))
    (stack : Stack α) : (stack.onFrame owner edit).outline = stack.outline := by
  obtain ⟨frames⟩ := stack
  simp only [onFrame, outline, outlineOf]
  induction frames with
  | nil => rfl
  | cons frame below ih =>
      by_cases theirs : frame.owner = owner
      · simp only [editFirst, if_pos theirs, List.map_cons, same]
      · simp only [editFirst, if_neg theirs, List.map_cons, ih]

theorem outline_put (id : Nat) (value : α) (stack : Stack α) :
    (stack.put id value).2.outline = stack.outline := by
  obtain ⟨_ | ⟨top, below⟩⟩ := stack <;> rfl

theorem outline_takeFor (id : Nat) (stack : Stack α) :
    (stack.takeFor id).2.outline = stack.outline := by
  refine outline_onTop (fun frame => ?_) stack
  unfold Frame.without
  split <;> rfl

theorem outline_openFor {owner : Token} {stack : Stack α}
    (apart : ∀ entry ∈ stack.outline, entry.1 ≠ owner) :
    (stack.openFor owner).outline = (owner, 1) :: stack.outline := by
  obtain ⟨_ | ⟨top, below⟩⟩ := stack
  · rfl
  · have other : top.owner ≠ owner := apart (top.owner, top.refs) (by simp [outline, outlineOf])
    simp [openFor, openFrames, other, outline, outlineOf, Frame.fresh]

theorem outlineOf_handDown (held : Option (Nat × α)) (below : List (Frame α)) :
    outlineOf (handDown held below).2 = outlineOf below := by
  rcases held with _ | ⟨id, value⟩
  · rfl
  · cases below <;> rfl

theorem owners_handDown (held : Option (Nat × α)) (below : List (Frame α)) :
    (handDown held below).2.map Frame.owner = below.map Frame.owner := by
  rcases held with _ | ⟨id, value⟩
  · rfl
  · cases below <;> rfl

theorem owners_closeFrames (owner : Token) (frames : List (Frame α)) :
    ((closeFrames owner frames).2.map Frame.owner).Sublist (frames.map Frame.owner) := by
  induction frames with
  | nil => exact .refl _
  | cons frame below ih =>
      unfold closeFrames
      by_cases theirs : frame.owner = owner
      · rw [if_pos theirs]
        by_cases shared : 1 < frame.refs
        · rw [if_pos shared]
          exact .refl _
        · rw [if_neg shared, owners_handDown]
          exact List.sublist_cons_self _ _
      · rw [if_neg theirs]
        exact ih.cons_cons _

theorem mem_owners_closeFrames {owner other : Token} {frames : List (Frame α)}
    (apart : other ≠ owner) :
    owner ∈ (closeFrames other frames).2.map Frame.owner ↔ owner ∈ frames.map Frame.owner := by
  refine ⟨fun inside => (owners_closeFrames other frames).subset inside, fun inside => ?_⟩
  induction frames with
  | nil => cases inside
  | cons frame below ih =>
      unfold closeFrames
      by_cases theirs : frame.owner = other
      · have beneath : owner ∈ below.map Frame.owner :=
          (List.mem_cons.1 inside).resolve_left fun same => apart (theirs.symm.trans same.symm)
        rw [if_pos theirs]
        split
        · exact inside
        · rwa [owners_handDown]
      · rw [if_neg theirs]
        rcases List.mem_cons.1 inside with here | beneath
        · exact List.mem_cons.2 (.inl here)
        · exact List.mem_cons_of_mem _ (ih beneath)

theorem handDown_answers (held : Option (Nat × α)) (below : List (Frame α)) :
    (handDown held below).1 ≠ .notOpen ∧ (handDown held below).1 ≠ .retained := by
  rcases held with _ | ⟨id, value⟩
  · simp [handDown]
  · cases below <;> simp [handDown]

theorem closeFrames_outline {owner : Token} {before after : List (Token × Nat)}
    {frames : List (Frame α)} (apart : ∀ entry ∈ before, entry.1 ≠ owner)
    (shape : outlineOf frames = before ++ (owner, 1) :: after) :
    outlineOf (closeFrames owner frames).2 = before ++ after ∧
      (closeFrames owner frames).1 ≠ .notOpen ∧ (closeFrames owner frames).1 ≠ .retained := by
  induction before generalizing frames with
  | nil =>
      obtain ⟨frame, below, rfl, entry, rest⟩ := List.map_eq_cons_iff.1 shape
      have theirs : frame.owner = owner := congrArg Prod.fst entry
      have once : ¬1 < frame.refs := by
        have refs : frame.refs = 1 := congrArg Prod.snd entry
        omega
      rw [closeFrames, if_pos theirs, if_neg once, outlineOf_handDown]
      exact ⟨rest, handDown_answers frame.held below⟩
  | cons first before ih =>
      obtain ⟨frame, below, rfl, entry, rest⟩ := List.map_eq_cons_iff.1 shape
      have other : frame.owner ≠ owner := by
        have named : frame.owner = first.1 := congrArg Prod.fst entry
        rw [named]
        exact apart first List.mem_cons_self
      obtain ⟨kept, answers⟩ := ih (fun entry listed => apart entry (List.mem_cons_of_mem _ listed))
        rest
      rw [closeFrames, if_neg other]
      refine ⟨?_, answers⟩
      change (frame.owner, frame.refs) :: outlineOf (closeFrames owner below).2 = _
      rw [kept, ← entry]
      rfl

/-- A frame that was opened once goes away, wherever it sits, and is answered for. -/
theorem outline_close {owner : Token} {before after : List (Token × Nat)} {stack : Stack α}
    (apart : ∀ entry ∈ before, entry.1 ≠ owner)
    (shape : stack.outline = before ++ (owner, 1) :: after) :
    (stack.close owner).2.outline = before ++ after ∧
      (stack.close owner).1 ≠ .notOpen ∧ (stack.close owner).1 ≠ .retained :=
  closeFrames_outline apart shape

end FaultRelay.Stack

import FaultRelay.Slot.Stack

/-! Relabelling the values of a stack. No operation of a stack looks at the values, so relabelling
commutes with all of them. -/
namespace FaultRelay

variable {α β : Type}

def Frame.map (label : α → β) (frame : Frame α) : Frame β :=
  ⟨frame.owner, frame.refs, frame.held.map fun entry => (entry.1, label entry.2)⟩

namespace Frame

variable (label : α → β) (frame : Frame α)

@[simp] theorem map_owner : (frame.map label).owner = frame.owner := rfl

@[simp] theorem map_refs : (frame.map label).refs = frame.refs := rfl

@[simp] theorem map_id : (frame.map label).id = frame.id := by
  obtain ⟨owner, refs, _ | held⟩ := frame <;> rfl

theorem map_holds (id : Nat) : (frame.map label).holds id = frame.holds id := by
  rw [holds, holds, map_id]

theorem map_without (id : Nat) : (frame.without id).map label = (frame.map label).without id := by
  unfold without
  rw [map_holds]
  split <;> rfl

theorem map_valueFor (id : Nat) :
    (frame.map label).valueFor id = (frame.valueFor id).map label := by
  unfold valueFor
  rw [map_holds]
  split
  · obtain ⟨owner, refs, _ | held⟩ := frame <;> rfl
  · rfl

end Frame

def Stack.map (label : α → β) (stack : Stack α) : Stack β := ⟨stack.frames.map (Frame.map label)⟩

namespace Stack

variable (label : α → β)

theorem map_openFor (owner : Token) (stack : Stack α) :
    (stack.openFor owner).map label = (stack.map label).openFor owner := by
  obtain ⟨_ | ⟨top, below⟩⟩ := stack
  · rfl
  · refine congrArg Stack.mk ?_
    change List.map _ (openFrames owner (top :: below)) =
      openFrames owner (top.map label :: below.map (Frame.map label))
    rw [openFrames, openFrames, Frame.map_owner]
    by_cases theirs : top.owner = owner
    · rw [if_pos theirs, if_pos theirs]
      rfl
    · rw [if_neg theirs, if_neg theirs]
      rfl

theorem map_put (id : Nat) (value : α) (stack : Stack α) :
    (stack.put id value).2.map label = ((stack.map label).put id (label value)).2 := by
  obtain ⟨_ | ⟨top, below⟩⟩ := stack <;> rfl

theorem map_valueFor (id : Nat) (stack : Stack α) :
    (stack.map label).valueFor id = (stack.valueFor id).map label := by
  obtain ⟨_ | ⟨top, below⟩⟩ := stack
  · rfl
  · exact Frame.map_valueFor label top id

theorem map_takeFor (id : Nat) (stack : Stack α) :
    (stack.takeFor id).2.map label = ((stack.map label).takeFor id).2 := by
  obtain ⟨_ | ⟨top, below⟩⟩ := stack
  · rfl
  · exact congrArg (fun frame => (⟨frame :: below.map (Frame.map label)⟩ : Stack β))
      (Frame.map_without label top id)

theorem map_handDown (held : Option (Nat × α)) (below : List (Frame α)) :
    (handDown held below).2.map (Frame.map label) =
      (handDown (held.map fun entry => (entry.1, label entry.2)) (below.map (Frame.map label))).2 := by
  rcases held with _ | ⟨id, value⟩
  · rfl
  · cases below <;> rfl

theorem map_closeFrames (owner : Token) (frames : List (Frame α)) :
    (closeFrames owner frames).2.map (Frame.map label) =
      (closeFrames owner (frames.map (Frame.map label))).2 := by
  induction frames with
  | nil => rfl
  | cons frame below ih =>
      rw [List.map_cons, closeFrames, closeFrames, Frame.map_owner, Frame.map_refs]
      by_cases theirs : frame.owner = owner
      · rw [if_pos theirs, if_pos theirs]
        by_cases shared : 1 < frame.refs
        · rw [if_pos shared, if_pos shared]
          rfl
        · rw [if_neg shared, if_neg shared]
          exact map_handDown label frame.held below
      · rw [if_neg theirs, if_neg theirs]
        exact congrArg (frame.map label :: ·) ih

theorem map_close (owner : Token) (stack : Stack α) :
    (stack.close owner).2.map label = ((stack.map label).close owner).2 :=
  congrArg Stack.mk (map_closeFrames label owner stack.frames)

theorem map_frameOf? (owner : Token) (stack : Stack α) :
    (stack.map label).frameOf? owner = (stack.frameOf? owner).map (Frame.map label) := by
  unfold frameOf? map
  rw [List.find?_map]
  rfl

theorem map_onFrame (owner : Token) (id : Nat) (value : α) (stack : Stack α) :
    (stack.onFrame owner (·.put id value)).map label =
      (stack.map label).onFrame owner (·.put id (label value)) := by
  obtain ⟨frames⟩ := stack
  refine congrArg Stack.mk ?_
  change List.map _ (editFirst owner _ frames) = editFirst owner _ (frames.map (Frame.map label))
  induction frames with
  | nil => rfl
  | cons frame below ih =>
      rw [List.map_cons, editFirst, editFirst, Frame.map_owner]
      by_cases theirs : frame.owner = owner
      · rw [if_pos theirs, if_pos theirs]
        rfl
      · rw [if_neg theirs, if_neg theirs]
        exact congrArg (frame.map label :: ·) ih

end Stack

end FaultRelay

import FaultRelay.Proofs.Outline
import Mathlib.Algebra.Ring.Nat

/-! Reference counts. One owner may have several frames on a stack, because opening shares only the
innermost frame while closing searches for one. What balances is therefore the sum over the frames
of an owner: each opening adds one to it and each closing that finds a frame takes one off. -/
namespace FaultRelay.Stack

variable {α : Type}

/-- What is done to a stack that stands alone. The pair in a frame may be changed in any way, in the
innermost frame or in the innermost frame of an owner. -/
inductive Use (α : Type) where
  | openFor (owner : Token)
  | close (owner : Token)
  | put (id : Nat) (value : α)
  | editTop (change : Option (Nat × α) → Option (Nat × α))
  | editOf (owner : Token) (change : Option (Nat × α) → Option (Nat × α))

namespace Use

def run : Use α → Stack α → Stack α
  | openFor owner, stack => stack.openFor owner
  | close owner, stack => (stack.close owner).2
  | put id value, stack => (stack.put id value).2
  | editTop change, stack => stack.onTop fun top => { top with held := change top.held }
  | editOf owner change, stack =>
      stack.onFrame owner fun frame => { frame with held := change frame.held }

def opens (owner : Token) : Use α → Nat
  | openFor other => if other = owner then 1 else 0
  | _ => 0

/-- A closing counts unless it is answered with `notOpen`. -/
def closes (owner : Token) (stack : Stack α) : Use α → Nat
  | close other =>
      match (stack.close other).1 with
      | .notOpen => 0
      | _ => if other = owner then 1 else 0
  | _ => 0

end Use

def after (stack : Stack α) : List (Use α) → Stack α
  | [] => stack
  | use :: rest => after (use.run stack) rest

def opened (owner : Token) (uses : List (Use α)) : Nat := (uses.map (Use.opens owner)).sum

def closed (owner : Token) (stack : Stack α) : List (Use α) → Nat
  | [] => 0
  | use :: rest => use.closes owner stack + closed owner (use.run stack) rest

def refsOf (owner : Token) (stack : Stack α) : Nat :=
  (stack.outline.map fun entry => if entry.1 = owner then entry.2 else 0).sum

def Referenced (stack : Stack α) : Prop := ∀ entry ∈ stack.outline, 1 ≤ entry.2

section Sums

variable {owner : Token} {above below : List (Frame α)} {frame : Frame α}

theorem refsOf_congr {stack later : Stack α} (same : later.outline = stack.outline) :
    later.refsOf owner = stack.refsOf owner := by
  rw [refsOf, refsOf, same]

theorem Referenced.congr {stack later : Stack α} (referenced : stack.Referenced)
    (same : later.outline = stack.outline) : later.Referenced := by
  rw [Referenced, same]
  exact referenced

theorem refsOf_cons : refsOf owner ⟨frame :: below⟩ =
    (if frame.owner = owner then frame.refs else 0) + refsOf owner ⟨below⟩ := by
  simp only [refsOf, outline, outlineOf, List.map_cons, List.sum_cons]

theorem refsOf_append :
    refsOf owner ⟨above ++ below⟩ = refsOf owner ⟨above⟩ + refsOf owner ⟨below⟩ := by
  simp only [refsOf, outline, outlineOf, List.map_append, List.sum_append]

theorem refsOf_absent (absent : ∀ frame ∈ above, frame.owner ≠ owner) :
    refsOf owner ⟨above⟩ = 0 := by
  induction above with
  | nil => rfl
  | cons first rest ih =>
      obtain ⟨other, later⟩ := List.forall_mem_cons.1 absent
      rw [refsOf_cons, if_neg other, ih later]

theorem refsOf_handDown (held : Option (Nat × α)) :
    refsOf owner ⟨(handDown held below).2⟩ = refsOf owner ⟨below⟩ :=
  refsOf_congr (outlineOf_handDown held below)

theorem referenced_append :
    Referenced ⟨above ++ below⟩ ↔ Referenced ⟨above⟩ ∧ Referenced ⟨below⟩ := by
  simp only [Referenced, outline, outlineOf, List.map_append, List.forall_mem_append]

theorem referenced_split : Referenced ⟨above ++ frame :: below⟩ ↔
    Referenced ⟨above⟩ ∧ 1 ≤ frame.refs ∧ Referenced ⟨below⟩ := by
  rw [referenced_append]
  exact and_congr_right fun _ => List.forall_mem_cons

theorem mem_referenced {stack : Stack α} (referenced : stack.Referenced) {frame : Frame α}
    (inside : frame ∈ stack.frames) : 1 ≤ frame.refs :=
  referenced (frame.owner, frame.refs) (List.mem_map_of_mem inside)

theorem refsOf_eq_zero {stack : Stack α} (referenced : stack.Referenced) :
    stack.refsOf owner = 0 ↔ ∀ frame ∈ stack.frames, frame.owner ≠ owner := by
  refine ⟨fun none frame inside theirs => ?_, refsOf_absent⟩
  obtain ⟨frames⟩ := stack
  obtain ⟨above, below, rfl⟩ := List.append_of_mem inside
  have once : 1 ≤ frame.refs := mem_referenced referenced inside
  rw [refsOf_append, refsOf_cons, if_pos theirs] at none
  omega

end Sums

/-- Everything a closing can do: the owner has no frame, or its innermost frame is shared, or that
frame goes and its value is handed down. -/
theorem close_cases {stack : Stack α} (referenced : stack.Referenced) (owner : Token) :
    ((∀ frame ∈ stack.frames, frame.owner ≠ owner) ∧ stack.close owner = (.notOpen, stack)) ∨
      ∃ above frame below, stack.frames = above ++ frame :: below ∧
        (∀ other ∈ above, other.owner ≠ owner) ∧ frame.owner = owner ∧
        ((1 < frame.refs ∧ stack.close owner =
            (.retained, ⟨above ++ { frame with refs := frame.refs - 1 } :: below⟩)) ∨
          (frame.refs = 1 ∧ stack.close owner =
            ((handDown frame.held below).1, ⟨above ++ (handDown frame.held below).2⟩))) := by
  obtain ⟨frames⟩ := stack
  rcases split_at_owner owner frames with absent | ⟨above, frame, below, rfl, apart, theirs⟩
  · refine .inl ⟨absent, ?_⟩
    rw [close, closeFrames_absent absent]
  · refine .inr ⟨above, frame, below, rfl, apart, theirs, ?_⟩
    by_cases shared : 1 < frame.refs
    · refine .inl ⟨shared, ?_⟩
      rw [close, closeFrames_shared apart theirs shared]
    · have once : 1 ≤ frame.refs := mem_referenced referenced (by simp)
      refine .inr ⟨by omega, ?_⟩
      rw [close, closeFrames_last apart theirs shared]

section Steps

variable {stack : Stack α}

theorem refsOf_openFor (owner other : Token) (stack : Stack α) :
    (stack.openFor other).refsOf owner = stack.refsOf owner + if other = owner then 1 else 0 := by
  obtain ⟨frames⟩ := stack
  rcases openFor_cases other ⟨frames⟩ with ⟨top, below, rfl, rfl, shared⟩ | pushed
  · rw [shared, refsOf_cons, refsOf_cons]
    by_cases theirs : top.owner = owner
    · rw [if_pos theirs, if_pos theirs, if_pos theirs, Nat.add_right_comm]
    · rw [if_neg theirs, if_neg theirs, if_neg theirs, Nat.add_zero]
  · rw [pushed, refsOf_cons]
    exact Nat.add_comm _ _

theorem closes_found {other : Token} (owner : Token)
    (found : (stack.close other).1 ≠ .notOpen) :
    (Use.close other).closes owner stack = if other = owner then 1 else 0 := by
  rw [Use.closes]
  split
  · contradiction
  · rfl

theorem refsOf_close (referenced : stack.Referenced) (owner other : Token) :
    (stack.close other).2.refsOf owner + (Use.close other).closes owner stack =
      stack.refsOf owner := by
  obtain ⟨frames⟩ := stack
  rcases close_cases referenced other with
    ⟨-, answer⟩ | ⟨above, frame, below, rfl, -, rfl, ⟨shared, answer⟩ | ⟨once, answer⟩⟩
  · simp only [Use.closes, answer, Nat.add_zero]
  · rw [closes_found owner (by simp [answer]), answer, refsOf_append, refsOf_append, refsOf_cons,
      refsOf_cons]
    dsimp only
    split <;> omega
  · rw [closes_found owner (by rw [answer]; exact (handDown_answers frame.held below).1), answer,
      refsOf_append, refsOf_append, refsOf_cons, refsOf_handDown, once]
    omega

theorem Referenced.close (referenced : stack.Referenced) (owner : Token) :
    (stack.close owner).2.Referenced := by
  obtain ⟨frames⟩ := stack
  rcases close_cases referenced owner with
    ⟨-, answer⟩ | ⟨above, frame, below, rfl, -, -, ⟨shared, answer⟩ | ⟨-, answer⟩⟩
  · rwa [answer]
  · obtain ⟨outer, -, inner⟩ := referenced_split.1 referenced
    rw [answer]
    exact referenced_split.2 ⟨outer, Nat.le_sub_one_of_lt shared, inner⟩
  · obtain ⟨outer, -, inner⟩ := referenced_split.1 referenced
    rw [answer]
    refine referenced_append.2 ⟨outer, inner.congr ?_⟩
    exact outlineOf_handDown frame.held below

theorem Referenced.openFor (referenced : stack.Referenced) (owner : Token) :
    (stack.openFor owner).Referenced := by
  obtain ⟨frames⟩ := stack
  rcases openFor_cases owner ⟨frames⟩ with ⟨top, below, rfl, -, shared⟩ | pushed
  · obtain ⟨once, rest⟩ := List.forall_mem_cons.1 referenced
    rw [shared]
    exact List.forall_mem_cons.2 ⟨Nat.le_succ_of_le once, rest⟩
  · rw [pushed]
    exact List.forall_mem_cons.2 ⟨Nat.le_refl 1, referenced⟩

/-- One use of a stack: what it opens and what it closes account for the change of the sum. -/
theorem Use.step (use : Use α) (referenced : stack.Referenced) (owner : Token) :
    (use.run stack).refsOf owner + use.closes owner stack =
      stack.refsOf owner + use.opens owner ∧ (use.run stack).Referenced := by
  -- Only opening and closing touch the outline, which is all that the counts are read from.
  have kept (same : (use.run stack).outline = stack.outline) :
      (use.run stack).refsOf owner = stack.refsOf owner ∧ (use.run stack).Referenced :=
    ⟨refsOf_congr same, referenced.congr same⟩
  cases use with
  | openFor other => exact ⟨refsOf_openFor owner other stack, referenced.openFor other⟩
  | close other => exact ⟨refsOf_close referenced owner other, referenced.close other⟩
  | put id value => exact kept (outline_put id value stack)
  | editTop change => exact kept (outline_onTop (by intro; rfl) stack)
  | editOf other change => exact kept (outline_onFrame other (by intro; rfl) stack)

theorem after_accounts (uses : List (Use α)) (referenced : stack.Referenced) (owner : Token) :
    (stack.after uses).refsOf owner + closed owner stack uses =
      stack.refsOf owner + opened owner uses ∧ (stack.after uses).Referenced := by
  induction uses generalizing stack with
  | nil => exact ⟨rfl, referenced⟩
  | cons use rest ih =>
      obtain ⟨counted, still⟩ := use.step referenced owner
      obtain ⟨sums, last⟩ := ih still
      have total : opened owner (use :: rest) = use.opens owner + opened owner rest := rfl
      refine ⟨?_, last⟩
      rw [after, closed, total]
      omega

/-- An owner who opens again while another is on top has two frames, adjacent once the other went. -/
example : ((empty : Stack Nat).after [.openFor (.numbered 1), .openFor (.numbered 2),
    .openFor (.numbered 1), .close (.numbered 2), .openFor (.numbered 1)]).outline =
      [(.numbered 1, 2), (.numbered 1, 1)] := rfl

end Steps

/-- `kept` is what was `below` a frame that is gone and held `held`: owners and counts are the same,
and no value but that of the frame directly beneath is another. -/
structure Inherits (held : Option (Nat × α)) (below kept : List (Frame α)) : Prop where
  outline : outlineOf kept = outlineOf below
  deeper : kept.tail = below.tail
  nothing : held = none → kept = below
  pair : ∀ pair, held = some pair → ∀ beneath ∈ kept.head?, beneath.held = some pair

theorem inherits_handDown (held : Option (Nat × α)) (below : List (Frame α)) :
    Inherits held below (handDown held below).2 where
  outline := outlineOf_handDown held below
  deeper := by
    rcases held with _ | ⟨id, value⟩
    · rfl
    · cases below <;> rfl
  nothing := by
    rintro rfl
    rfl
  pair := by
    rintro ⟨id, value⟩ rfl beneath first
    cases below with
    | nil => cases first
    | cons outer rest =>
        cases first
        rfl

section Answers

variable {stack : Stack α} {owner : Token}

theorem close_notOpen (referenced : stack.Referenced) :
    ((stack.close owner).1 = .notOpen ↔ stack.refsOf owner = 0) ∧
      ((stack.close owner).1 = .notOpen → (stack.close owner).2 = stack) := by
  rw [refsOf_eq_zero referenced]
  obtain ⟨frames⟩ := stack
  rcases close_cases referenced owner with
    ⟨absent, answer⟩ | ⟨above, frame, below, rfl, -, theirs, shared | once⟩
  · rw [answer]
    exact ⟨iff_of_true rfl absent, fun _ => rfl⟩
  all_goals have present : ¬∀ other ∈ above ++ frame :: below, other.owner ≠ owner :=
    fun absent => absent frame (by simp) theirs
  · rw [shared.2]
    exact ⟨iff_of_false nofun present, nofun⟩
  · have found := (handDown_answers frame.held below).1
    rw [once.2]
    exact ⟨iff_of_false found present, fun none => absurd none found⟩

theorem close_retained (referenced : stack.Referenced) :
    ((stack.close owner).1 = .retained ↔
      ∃ frame, stack.frameOf? owner = some frame ∧ 1 < frame.refs) ∧
    ((stack.close owner).1 = .retained → (stack.close owner).2 =
      stack.onFrame owner fun frame => { frame with refs := frame.refs - 1 }) := by
  obtain ⟨frames⟩ := stack
  rcases close_cases referenced owner with
    ⟨absent, answer⟩ | ⟨above, frame, below, rfl, apart, theirs, ⟨shared, answer⟩ | ⟨once, answer⟩⟩
  · have none : frameOf? ⟨frames⟩ owner = none := List.find?_eq_none.2 (by simpa using absent)
    simp [answer, none]
  · rw [answer, frameOf?_split apart theirs, onFrame_split _ apart theirs]
    exact ⟨⟨fun _ => ⟨frame, rfl, shared⟩, fun _ => rfl⟩, fun _ => rfl⟩
  · have gone := (handDown_answers frame.held below).2
    rw [answer, frameOf?_split apart theirs]
    simp [gone, once]

theorem close_removes (referenced : stack.Referenced) (found : (stack.close owner).1 ≠ .notOpen)
    (gone : (stack.close owner).1 ≠ .retained) :
    ∃ above frame below kept, stack.frames = above ++ frame :: below ∧
      (∀ other ∈ above, other.owner ≠ owner) ∧ frame.owner = owner ∧ frame.refs = 1 ∧
      (stack.close owner).2.frames = above ++ kept ∧ Inherits frame.held below kept := by
  rcases close_cases referenced owner with
    ⟨-, answer⟩ | ⟨above, frame, below, split, apart, theirs, ⟨-, answer⟩ | ⟨once, answer⟩⟩
  · exact absurd (congrArg Prod.fst answer) found
  · exact absurd (congrArg Prod.fst answer) gone
  · exact ⟨above, frame, below, _, split, apart, theirs, once, congrArg (frames ∘ Prod.snd) answer,
      inherits_handDown frame.held below⟩

theorem depth_eq_zero (referenced : stack.Referenced) :
    stack.depth = 0 ↔ ∀ owner, stack.refsOf owner = 0 := by
  obtain ⟨frames⟩ := stack
  refine ⟨fun bare owner => ?_, fun none => ?_⟩
  · obtain rfl := List.length_eq_zero_iff.1 bare
    rfl
  · rcases frames with _ | ⟨top, below⟩
    · rfl
    · exact absurd rfl ((refsOf_eq_zero referenced).1 (none top.owner) top List.mem_cons_self)

end Answers

structure Accounted (uses : List (Use α)) (stack : Stack α) : Prop where
  balance : ∀ owner, stack.refsOf owner + closed owner empty uses = opened owner uses
  positive : ∀ frame ∈ stack.frames, 1 ≤ frame.refs
  notOpen : ∀ owner, (stack.close owner).1 = .notOpen ↔ opened owner uses = closed owner empty uses
  unchanged : ∀ owner, (stack.close owner).1 = .notOpen → (stack.close owner).2 = stack
  retained : ∀ owner, (stack.close owner).1 = .retained ↔
    ∃ frame, stack.frameOf? owner = some frame ∧ 1 < frame.refs
  counted : ∀ owner, (stack.close owner).1 = .retained →
    (stack.close owner).2 = stack.onFrame owner fun frame => { frame with refs := frame.refs - 1 }
  removed : ∀ owner, (stack.close owner).1 ≠ .notOpen → (stack.close owner).1 ≠ .retained →
    ∃ above frame below kept, stack.frames = above ++ frame :: below ∧
      (∀ other ∈ above, other.owner ≠ owner) ∧ frame.owner = owner ∧ frame.refs = 1 ∧
      (stack.close owner).2.frames = above ++ kept ∧ Inherits frame.held below kept
  depth : stack.depth = 0 ↔ ∀ owner, opened owner uses = closed owner empty uses

/-- However a stack is used, the reference counts of an owner add up to its openings less its
closings that found a frame, and closing is decided by them. -/
theorem reference_counts_balance (uses : List (Use α)) : Accounted uses (empty.after uses) := by
  have fromEmpty (owner : Token) : (empty.after uses).refsOf owner + closed owner empty uses =
      0 + opened owner uses ∧ (empty.after uses).Referenced :=
    after_accounts uses (by rintro _ ⟨⟩) owner
  have referenced := (fromEmpty .detached).2
  have even (owner : Token) : (empty.after uses).refsOf owner = 0 ↔
      opened owner uses = closed owner empty uses := by
    have counted := (fromEmpty owner).1
    omega
  exact {
    balance := fun owner => by rw [(fromEmpty owner).1, Nat.zero_add]
    positive := fun _ inside => mem_referenced referenced inside
    notOpen := fun owner => (close_notOpen referenced).1.trans (even owner)
    unchanged := fun owner => (close_notOpen referenced).2
    retained := fun owner => (close_retained referenced).1
    counted := fun owner => (close_retained referenced).2
    removed := fun owner => close_removes referenced
    depth := (depth_eq_zero referenced).trans (forall_congr' even) }

end FaultRelay.Stack

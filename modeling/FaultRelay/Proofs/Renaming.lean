import FaultRelay.Failure
import FaultRelay.Slot.Stack
import Mathlib.Data.List.Forall2
import Mathlib.Order.Basic

/-! What stays the same of a thread when its identities are others. Two runs of a thread may draw
different identities, because other threads drew in between. A renaming pairs what either run drew,
in the order it was drawn, and values are alike when they differ by the renaming alone. A renaming
grows along the runs; what is alike stays alike. -/
namespace FaultRelay

variable {α β : Type}

/-- The identities that two runs drew, the latest pair first. Both sides ascend, so that a renaming
is one to one and keeps the order. -/
structure Renaming where
  pairs : List (FailureId × FailureId)
  ascending : pairs.Pairwise fun later earlier =>
    earlier.1.raw < later.1.raw ∧ earlier.2.raw < later.2.raw

namespace Renaming

def none : Renaming := ⟨[], .nil⟩

def Links (names : Renaming) (id id' : FailureId) : Prop := (id, id') ∈ names.pairs

instance : Preorder Renaming where
  le names later := ∀ pair ∈ names.pairs, pair ∈ later.pairs
  le_refl _ _ listed := listed
  le_trans _ _ _ first second pair listed := second pair (first pair listed)

variable {names later : Renaming} {id id' other other' : FailureId}

theorem Links.lt_iff (first : names.Links id id') (second : names.Links other other') :
    id.raw < other.raw ↔ id'.raw < other'.raw := by
  have alike : ∀ pair ∈ names.pairs, ∀ pair' ∈ names.pairs,
      (pair.1.raw < pair'.1.raw ↔ pair.2.raw < pair'.2.raw) := by
    refine List.Pairwise.forall_of_forall_of_flip (fun _ _ => by simp) ?_ ?_
    · exact names.ascending.imp fun ⟨left, right⟩ =>
        iff_of_false (Nat.lt_asymm left) (Nat.lt_asymm right)
    · exact names.ascending.imp fun ⟨left, right⟩ => iff_of_true left right
  exact alike _ first _ second

theorem Links.eq_iff (first : names.Links id id') (second : names.Links other other') :
    id = other ↔ id' = other' := by
  have before := first.lt_iff second
  have after := second.lt_iff first
  constructor <;> rintro rfl <;> exact FailureId.raw_injective (by omega)

end Renaming

/-- What it is for the values of two runs to be alike up to a renaming. -/
structure Likeness (α : Type) where
  At : Renaming → α → α → Prop
  mono : ∀ {names later : Renaming} {value value' : α}, names ≤ later →
    At names value value' → At later value value'

namespace Likeness

def same : Likeness α := ⟨fun _ value value' => value = value', fun _ same => same⟩

def id : Likeness FailureId := ⟨Renaming.Links, fun grown linked => grown _ linked⟩

def tag : Likeness Nat where
  At names tag tag' := ∃ id id', names.Links id id' ∧ id.raw = tag ∧ id'.raw = tag'
  mono := fun grown ⟨id, id', linked, raws⟩ => ⟨id, id', grown _ linked, raws⟩

def optional (like : Likeness α) : Likeness (Option α) where
  At names := Option.Rel (like.At names)
  mono grown alike := by
    cases alike with
    | none => exact .none
    | some alike => exact .some (like.mono grown alike)

def listed (like : Likeness α) : Likeness (List α) where
  At names := List.Forall₂ (like.At names)
  mono grown alike := alike.imp fun _ _ => like.mono grown

def both (first : Likeness α) (second : Likeness β) : Likeness (α × β) where
  At names pair pair' := first.At names pair.1 pair'.1 ∧ second.At names pair.2 pair'.2
  mono grown alike := ⟨first.mono grown alike.1, second.mono grown alike.2⟩

section Identities

variable {names : Renaming}

theorem tag_of_linked {id id' : FailureId} (linked : names.Links id id') :
    tag.At names id.raw id'.raw := ⟨id, id', linked, rfl, rfl⟩

theorem tag_eq_iff {m m' n n' : Nat} (first : tag.At names m m') (second : tag.At names n n') :
    m = n ↔ m' = n' := by
  obtain ⟨id, id', linked, rfl, rfl⟩ := first
  obtain ⟨other, other', linked', rfl, rfl⟩ := second
  have same := linked.eq_iff linked'
  exact ⟨fun raw => congrArg FailureId.raw (same.1 (FailureId.raw_injective raw)),
    fun raw => congrArg FailureId.raw (same.2 (FailureId.raw_injective raw))⟩

theorem optional_eq_iff {like : Likeness α} {first first' second second' : Option α}
    (one : ∀ {a a' b b'}, like.At names a a' → like.At names b b' → (a = b ↔ a' = b'))
    (alike : like.optional.At names first first') (alike' : like.optional.At names second second') :
    first = second ↔ first' = second' := by
  cases alike with
  | none => cases alike' <;> simp
  | some alike =>
      cases alike' with
      | none => simp
      | some alike' => simpa using one alike alike'

theorem optional_map {like : Likeness α} {other : Likeness β} {value value' : Option α}
    {change change' : α → β} (alike : like.optional.At names value value')
    (changes : ∀ {a a'}, like.At names a a' → other.At names (change a) (change' a')) :
    other.optional.At names (value.map change) (value'.map change') := by
  cases alike with
  | none => exact .none
  | some alike => exact .some (changes alike)

theorem isSome_eq {like : Likeness α} {value value' : Option α}
    (alike : like.optional.At names value value') : value.isSome = value'.isSome := by
  cases alike <;> rfl

end Identities

end Likeness

section Frames

variable {names : Renaming} {like : Likeness α}

inductive Frame.Like (like : Likeness α) (names : Renaming) : Frame α → Frame α → Prop
  | mk (owner : Token) (refs : Nat) {held held' : Option (Nat × α)}
      (alike : (Likeness.tag.both like).optional.At names held held') :
      Like like names ⟨owner, refs, held⟩ ⟨owner, refs, held'⟩

def Likeness.frame (like : Likeness α) : Likeness (Frame α) where
  At := Frame.Like like
  mono := fun grown ⟨owner, refs, alike⟩ => ⟨owner, refs, Likeness.mono _ grown alike⟩

/-- Stacks with the same frames but for their tags, and for identities in their values. -/
def Likeness.stack (like : Likeness α) : Likeness (Stack α) where
  At names stack stack' := like.frame.listed.At names stack.frames stack'.frames
  mono := like.frame.listed.mono

inductive Closed.Like (like : Likeness α) (names : Renaming) : Closed α → Closed α → Prop
  | retained : Like like names .retained .retained
  | released : Like like names .released .released
  | propagated {tag tag' : Nat} (tagged : Likeness.tag.At names tag tag')
      {replaced replaced' : Option α} (replaces : like.optional.At names replaced replaced') :
      Like like names (.propagated tag replaced) (.propagated tag' replaced')
  | discarded {tag tag' : Nat} (tagged : Likeness.tag.At names tag tag') {value value' : α}
      (alike : like.At names value value') :
      Like like names (.discarded tag value) (.discarded tag' value')
  | notOpen : Like like names .notOpen .notOpen

def Likeness.closed (like : Likeness α) : Likeness (Closed α) where
  At := Closed.Like like
  mono grown alike := by
    cases alike with
    | retained => exact .retained
    | released => exact .released
    | propagated tagged replaces =>
        exact .propagated (Likeness.tag.mono grown tagged) (Likeness.mono _ grown replaces)
    | discarded tagged alike =>
        exact .discarded (Likeness.tag.mono grown tagged) (like.mono grown alike)
    | notOpen => exact .notOpen

inductive Stored.Like (like : Likeness α) (names : Renaming) : Stored α → Stored α → Prop
  | stored {previous previous' : Option α} (alike : like.optional.At names previous previous') :
      Like like names (.stored previous) (.stored previous')
  | rejected {value value' : α} (alike : like.At names value value') :
      Like like names (.rejected value) (.rejected value')

def Likeness.stored (like : Likeness α) : Likeness (Stored α) where
  At := Stored.Like like
  mono grown alike := by
    cases alike with
    | stored alike => exact .stored (Likeness.mono _ grown alike)
    | rejected alike => exact .rejected (like.mono grown alike)

namespace Frame.Like

variable {frame frame' : Frame α} {tag tag' : Nat}

theorem fresh (owner : Token) : Frame.Like like names (.fresh owner) (.fresh owner) :=
  .mk owner 1 .none

theorem owner (alike : Frame.Like like names frame frame') : frame.owner = frame'.owner := by
  cases alike
  rfl

theorem value? (alike : Frame.Like like names frame frame') :
    like.optional.At names frame.value? frame'.value? := by
  cases alike with
  | mk _ _ alike => exact Likeness.optional_map alike And.right

theorem id (alike : Frame.Like like names frame frame') :
    Likeness.tag.optional.At names frame.id frame'.id := by
  cases alike with
  | mk _ _ alike => exact Likeness.optional_map alike And.left

theorem holds (alike : Frame.Like like names frame frame')
    (tagged : Likeness.tag.At names tag tag') : frame.holds tag = frame'.holds tag' := by
  have same := Likeness.optional_eq_iff Likeness.tag_eq_iff alike.id (.some tagged)
  rw [Bool.eq_iff_iff, Frame.holds, Frame.holds, beq_iff_eq, beq_iff_eq, same]

theorem put (alike : Frame.Like like names frame frame') (tagged : Likeness.tag.At names tag tag')
    {value value' : α} (values : like.At names value value') :
    Frame.Like like names (frame.put tag value) (frame'.put tag' value') := by
  cases alike
  exact .mk _ _ (.some ⟨tagged, values⟩)

theorem without (alike : Frame.Like like names frame frame')
    (tagged : Likeness.tag.At names tag tag') :
    Frame.Like like names (frame.without tag) (frame'.without tag') := by
  unfold Frame.without
  rw [alike.holds tagged]
  split
  · cases alike
    exact .mk _ _ .none
  · exact alike

theorem valueFor (alike : Frame.Like like names frame frame')
    (tagged : Likeness.tag.At names tag tag') :
    like.optional.At names (frame.valueFor tag) (frame'.valueFor tag') := by
  unfold Frame.valueFor
  rw [alike.holds tagged]
  split
  · exact alike.value?
  · exact .none

end Frame.Like

namespace Stack

variable {stack stack' : Stack α} {tag tag' : Nat} (alike : like.stack.At names stack stack')
include alike

theorem top?_alike : like.frame.optional.At names stack.top? stack'.top? := by
  obtain ⟨frames⟩ := stack
  obtain ⟨frames'⟩ := stack'
  cases alike with
  | nil => exact .none
  | cons top _ => exact .some top

theorem depth_alike : stack.depth = stack'.depth := alike.length_eq

theorem isOpen_alike : stack.isOpen = stack'.isOpen := by
  obtain ⟨frames⟩ := stack
  obtain ⟨frames'⟩ := stack'
  cases alike <;> rfl

theorem topId?_alike : Likeness.tag.optional.At names stack.topId? stack'.topId? := by
  obtain ⟨frames⟩ := stack
  obtain ⟨frames'⟩ := stack'
  cases alike with
  | nil => exact .none
  | cons top _ => exact top.id

theorem valueFor_alike (tagged : Likeness.tag.At names tag tag') :
    like.optional.At names (stack.valueFor tag) (stack'.valueFor tag') := by
  obtain ⟨frames⟩ := stack
  obtain ⟨frames'⟩ := stack'
  cases alike with
  | nil => exact .none
  | cons top _ => exact top.valueFor tagged

theorem onTop_alike {edit edit' : Frame α → Frame α}
    (edits : ∀ {frame frame'}, like.frame.At names frame frame' →
      like.frame.At names (edit frame) (edit' frame')) :
    like.stack.At names (stack.onTop edit) (stack'.onTop edit') := by
  obtain ⟨frames⟩ := stack
  obtain ⟨frames'⟩ := stack'
  cases alike with
  | nil => exact .nil
  | cons top below => exact .cons (edits top) below

theorem takeFor_alike (tagged : Likeness.tag.At names tag tag') :
    (like.optional.both like.stack).At names (stack.takeFor tag) (stack'.takeFor tag') :=
  ⟨valueFor_alike alike tagged, onTop_alike alike fun top => top.without tagged⟩

theorem put_alike (tagged : Likeness.tag.At names tag tag') {value value' : α}
    (values : like.At names value value') :
    (like.stored.both like.stack).At names (stack.put tag value) (stack'.put tag' value') := by
  obtain ⟨frames⟩ := stack
  obtain ⟨frames'⟩ := stack'
  cases alike with
  | nil => exact ⟨.rejected values, .nil⟩
  | cons top below => exact ⟨.stored top.value?, .cons (top.put tagged values) below⟩

theorem openFor_alike (owner : Token) :
    like.stack.At names (stack.openFor owner) (stack'.openFor owner) := by
  obtain ⟨frames⟩ := stack
  obtain ⟨frames'⟩ := stack'
  cases alike with
  | nil => exact .cons (.fresh owner) .nil
  | cons top below =>
      cases top with
      | mk other refs held =>
          unfold openFor openFrames
          by_cases theirs : other = owner
          · simp only [if_pos theirs]
            exact .cons (.mk other (refs + 1) held) below
          · simp only [if_neg theirs]
            exact .cons (.fresh owner) (.cons (.mk other refs held) below)

theorem close_alike (owner : Token) :
    (like.closed.both like.stack).At names (stack.close owner) (stack'.close owner) := by
  have handed : ∀ {held held' : Option (Nat × α)} {below below' : List (Frame α)},
      (Likeness.tag.both like).optional.At names held held' →
      like.frame.listed.At names below below' →
      (like.closed.both like.frame.listed).At names (handDown held below)
        (handDown held' below') := by
    intro held held' below below' alike beneath
    cases alike with
    | none => exact ⟨.released, beneath⟩
    | some alike =>
        cases beneath with
        | nil => exact ⟨.discarded alike.1 alike.2, .nil⟩
        | cons outer rest =>
            exact ⟨.propagated alike.1 outer.value?, .cons (outer.put alike.1 alike.2) rest⟩
  have closed : ∀ {frames frames' : List (Frame α)}, like.frame.listed.At names frames frames' →
      (like.closed.both like.frame.listed).At names (closeFrames owner frames)
        (closeFrames owner frames') := by
    intro frames frames' alike
    induction alike with
    | nil => exact ⟨.notOpen, .nil⟩
    | cons top below ih =>
        unfold closeFrames
        cases top with
        | mk other refs held =>
            by_cases theirs : other = owner
            · by_cases shared : 1 < refs
              · simp only [if_pos theirs, if_pos shared]
                exact ⟨.retained, .cons (.mk _ _ held) below⟩
              · simp only [if_pos theirs, if_neg shared]
                exact handed held below
            · simp only [if_neg theirs]
              exact ⟨ih.1, .cons (.mk _ _ held) ih.2⟩
  exact closed alike

theorem frameOf?_alike (owner : Token) :
    like.frame.optional.At names (stack.frameOf? owner) (stack'.frameOf? owner) := by
  obtain ⟨frames⟩ := stack
  obtain ⟨frames'⟩ := stack'
  change Option.Rel _ (List.find? _ frames) (List.find? _ frames')
  change List.Forall₂ _ frames frames' at alike
  induction alike with
  | nil => exact .none
  | cons top below ih =>
      rw [List.find?_cons, List.find?_cons, top.owner]
      split
      · exact .some top
      · exact ih

theorem onFrame_alike (owner : Token) {edit edit' : Frame α → Frame α}
    (edits : ∀ {frame frame'}, like.frame.At names frame frame' →
      like.frame.At names (edit frame) (edit' frame')) :
    like.stack.At names (stack.onFrame owner edit) (stack'.onFrame owner edit') := by
  obtain ⟨frames⟩ := stack
  obtain ⟨frames'⟩ := stack'
  change List.Forall₂ _ (editFirst owner edit frames) (editFirst owner edit' frames')
  change List.Forall₂ _ frames frames' at alike
  induction alike with
  | nil => exact .nil
  | cons top below ih =>
      unfold editFirst
      rw [top.owner]
      split
      · exact .cons (edits top) below
      · exact .cons top ih

end Stack

end Frames

end FaultRelay

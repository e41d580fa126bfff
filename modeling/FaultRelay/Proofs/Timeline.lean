import FaultRelay.Proofs.Contents
import FaultRelay.Proofs.Relabel
import FaultRelay.Proofs.ThreadStacks
import Mathlib.Logic.Function.Basic

/-! The history of one payload type on one thread. A clock ticks when a value is recorded and when
the type is opened, and every value keeps the time of its record as its stamp. The stack is run by
the operations of `Stack` on stamped values. A frame has its marks: the stamp of its value, the
stamps of the values it lent, the last lent first, and the time it was opened. From the innermost
frame outward the marks of all frames descend, whatever is done: an operation sets at most one new
mark, which is the latest, and otherwise only loses some. -/
namespace FaultRelay

structure Stamped (α : Type) where
  value : α
  time : Nat

structure Loan (α : Type) where
  owner : Token
  id : Nat
  stamped : Stamped α

inductive Loss (α : Type) where
  | displaced (lost kept : Stamped α)
  | taken (lost : Stamped α)
  /-- It was lent, and its frame was closed meanwhile. -/
  | orphaned (lost : Stamped α)
  /-- There was no frame for it, or no storage any more. -/
  | dropped (lost : Stamped α)

inductive Mark (α : Type) where
  | write (stamped : Stamped α)
  | opening (time : Nat)

variable {α : Type}

def Loss.lost : Loss α → Stamped α
  | displaced lost _ | taken lost | orphaned lost | dropped lost => lost

def Mark.time : Mark α → Nat
  | write stamped => stamped.time
  | opening time => time

def Mark.write? : Mark α → Option (Stamped α)
  | write stamped => some stamped
  | opening _ => none

/-- What is lost when a put is answered, where `kept` is what was put. -/
def Stored.losses (kept : Stamped α) : Stored (Stamped α) → List (Loss α)
  | stored previous => (previous.map (Loss.displaced · kept)).toList
  | rejected value => [.dropped value]

def Closed.losses (kept : Option (Stamped α)) : Closed (Stamped α) → List (Loss α)
  | propagated _ (some old) => (kept.map (Loss.displaced old)).toList
  | discarded _ value => [.dropped value]
  | propagated _ none | retained | released | notOpen => []

structure Timeline (α : Type) where
  clock : Nat
  alive : Bool
  since : Token → Nat
  stack : Stack (Stamped α)
  /-- The innermost first. -/
  loans : List (Loan α)
  records : List (Stamped α)
  losses : List (Loss α)

namespace Timeline

def start : Timeline α := ⟨0, true, fun _ => 0, .empty, [], [], []⟩

def openFor (owner : Token) (line : Timeline α) : Timeline α :=
  if line.alive then
    { line with
      clock := line.clock + 1
      since := Function.update line.since owner line.clock
      stack := line.stack.openFor owner }
  else line

def stamp (value : α) (line : Timeline α) : Stamped α := ⟨value, line.clock⟩

def record (id : Nat) (value : α) (line : Timeline α) : Timeline α :=
  { line with
    clock := line.clock + 1
    stack := (line.stack.put id (line.stamp value)).2
    records := line.stamp value :: line.records
    losses := (line.stack.put id (line.stamp value)).1.losses (line.stamp value) ++ line.losses }

def close (owner : Token) (line : Timeline α) : Timeline α :=
  { line with
    stack := (line.stack.close owner).2
    losses := (line.stack.close owner).1.losses ((line.stack.frameOf? owner).bind Frame.value?) ++
      line.losses }

def take (id : Nat) (line : Timeline α) : Timeline α :=
  { line with
    stack := (line.stack.takeFor id).2
    losses := ((line.stack.takeFor id).1.map Loss.taken).toList ++ line.losses }

def lend (owner : Token) (id : Nat) (line : Timeline α) : Timeline α :=
  match (line.stack.takeFor id).1 with
  | none => line
  | some stamped =>
      { line with
        stack := (line.stack.takeFor id).2
        loans := ⟨owner, id, stamped⟩ :: line.loans }

/-- The innermost loan ends: its value goes back to its frame, if that is open and empty. -/
def giveBack (line : Timeline α) : Timeline α :=
  match line.loans with
  | [] => line
  | loan :: rest =>
      match line.stack.frameOf? loan.owner with
      | none => { line with loans := rest, losses := .orphaned loan.stamped :: line.losses }
      | some frame =>
          match frame.value? with
          | none =>
              { line with
                stack := line.stack.onFrame loan.owner (·.put loan.id loan.stamped)
                loans := rest }
          | some kept =>
              { line with loans := rest, losses := .displaced loan.stamped kept :: line.losses }

def endStorage (line : Timeline α) : Timeline α :=
  { line with
    alive := false
    stack := .empty
    losses := line.stack.values.map Loss.dropped ++ line.losses }

end Timeline

section Marks

variable {since : Token → Nat} {loans : List (Loan α)}

def Loan.marksOf (owner : Token) (loans : List (Loan α)) : List (Mark α) :=
  (loans.filter (·.owner = owner)).map fun loan => .write loan.stamped

def Frame.marks (since : Token → Nat) (loans : List (Loan α)) (frame : Frame (Stamped α)) :
    List (Mark α) :=
  frame.value?.toList.map .write ++ (Loan.marksOf frame.owner loans ++ [.opening (since frame.owner)])

def Stack.marksOf (since : Token → Nat) (loans : List (Loan α)) (frames : List (Frame (Stamped α))) :
    List (Mark α) :=
  frames.flatMap (Frame.marks since loans)

def Timeline.marks (line : Timeline α) : List (Mark α) :=
  Stack.marksOf line.since line.loans line.stack.frames

def Timeline.owners (line : Timeline α) : List Token := line.stack.frames.map Frame.owner

theorem Loan.marksOf_cons_same (loan : Loan α) (rest : List (Loan α)) :
    marksOf loan.owner (loan :: rest) = .write loan.stamped :: marksOf loan.owner rest := by
  simp [marksOf]

theorem Loan.marksOf_cons_other {owner : Token} {loan : Loan α} (other : loan.owner ≠ owner)
    (rest : List (Loan α)) : marksOf owner (loan :: rest) = marksOf owner rest := by
  simp [marksOf, other]

theorem Loan.marksOf_cons (owner : Token) (loan : Loan α) (rest : List (Loan α)) :
    (marksOf owner rest).Sublist (marksOf owner (loan :: rest)) := by
  by_cases theirs : loan.owner = owner
  · subst theirs
    rw [marksOf_cons_same]
    exact List.sublist_cons_self _ _
  · rw [marksOf_cons_other theirs]

namespace Frame

variable {frame : Frame (Stamped α)}

theorem marks_put (id : Nat) (stamped : Stamped α) :
    (frame.put id stamped).marks since loans =
      .write stamped :: (Loan.marksOf frame.owner loans ++ [.opening (since frame.owner)]) := rfl

theorem marks_empty (empty : frame.value? = none) :
    frame.marks since loans = Loan.marksOf frame.owner loans ++ [.opening (since frame.owner)] := by
  rw [marks, empty]
  rfl

theorem marks_tail : (Loan.marksOf frame.owner loans ++ [Mark.opening (since frame.owner)]).Sublist
    (frame.marks since loans) := List.sublist_append_right _ _

theorem marks_without (id : Nat) :
    ((frame.without id).marks since loans).Sublist (frame.marks since loans) := by
  have tail : (frame.cleared.marks since loans).Sublist (frame.marks since loans) := by
    rw [marks_empty rfl]
    exact List.sublist_append_right _ _
  unfold without
  split
  · exact tail
  · exact .refl _

theorem marks_fewer (loan : Loan α) :
    (frame.marks since loans).Sublist (frame.marks since (loan :: loans)) :=
  (List.Sublist.refl _).append ((Loan.marksOf_cons _ loan loans).append (.refl _))

end Frame

namespace Stack

variable {frame : Frame (Stamped α)} {frames below : List (Frame (Stamped α))}

theorem marksOf_cons (since : Token → Nat) (loans : List (Loan α)) (frame : Frame (Stamped α))
    (below : List (Frame (Stamped α))) :
    marksOf since loans (frame :: below) = frame.marks since loans ++ marksOf since loans below :=
  List.flatMap_cons

theorem marksOf_append (above below : List (Frame (Stamped α))) :
    marksOf since loans (above ++ below) =
      marksOf since loans above ++ marksOf since loans below := List.flatMap_append

theorem opening_mem_marksOf (listed : frame ∈ frames) :
    .opening (since frame.owner) ∈ marksOf since loans frames :=
  List.mem_flatMap.2 ⟨frame, listed, List.mem_append_right _ (List.mem_append_right _ (by simp))⟩

theorem write_mem_marksOf {stamped : Stamped α} (listed : frame ∈ frames)
    (held : frame.value? = some stamped) : .write stamped ∈ marksOf since loans frames := by
  refine List.mem_flatMap.2 ⟨frame, listed, List.mem_append_left _ ?_⟩
  rw [held]
  exact List.mem_singleton_self _

theorem marksOf_update {owner : Token} (apart : ∀ frame ∈ frames, frame.owner ≠ owner) (time : Nat) :
    marksOf (Function.update since owner time) loans frames = marksOf since loans frames := by
  refine List.flatMap_congr fun frame listed => ?_
  unfold Frame.marks
  rw [Function.update_of_ne (apart frame listed)]

theorem marksOf_fewer (loan : Loan α) (frames : List (Frame (Stamped α))) :
    (marksOf since loans frames).Sublist (marksOf since (loan :: loans) frames) := by
  induction frames with
  | nil => exact .slnil
  | cons frame below ih =>
      rw [marksOf_cons, marksOf_cons]
      exact (Frame.marks_fewer loan).append ih

theorem openFor_apart {β : Type} {owner : Token} {stack : Stack β}
    (apart : ∀ frame ∈ stack.frames, frame.owner ≠ owner) :
    stack.openFor owner = ⟨Frame.fresh owner :: stack.frames⟩ := by
  obtain ⟨_ | ⟨top, below⟩⟩ := stack
  · rfl
  · rw [openFor, openFrames, if_neg (apart top List.mem_cons_self)]

theorem marksOf_put (id : Nat) (stamped : Stamped α) (stack : Stack (Stamped α)) :
    (marksOf since loans (stack.put id stamped).2.frames).Sublist
      (.write stamped :: marksOf since loans stack.frames) := by
  obtain ⟨_ | ⟨top, below⟩⟩ := stack
  · exact List.nil_sublist _
  · change (marksOf since loans (top.put id stamped :: below)).Sublist _
    rw [marksOf_cons, marksOf_cons, Frame.marks_put, List.cons_append]
    exact (Frame.marks_tail.append (.refl _)).cons_cons _

theorem marksOf_takeFor (id : Nat) (stack : Stack (Stamped α)) :
    (marksOf since loans (stack.takeFor id).2.frames).Sublist
      (marksOf since loans stack.frames) := by
  obtain ⟨_ | ⟨top, below⟩⟩ := stack
  · exact .refl _
  · change (marksOf since loans (top.without id :: below)).Sublist _
    rw [marksOf_cons, marksOf_cons]
    exact (Frame.marks_without id).append (.refl _)

theorem marksOf_handDown (frame : Frame (Stamped α)) (below : List (Frame (Stamped α))) :
    (marksOf since loans (handDown frame.held below).2).Sublist
      (marksOf since loans (frame :: below)) := by
  obtain ⟨owner, refs, _ | ⟨id, stamped⟩⟩ := frame
  · exact List.sublist_append_right _ _
  · cases below with
    | nil => exact List.nil_sublist _
    | cons outer rest =>
        change (marksOf since loans (outer.put id stamped :: rest)).Sublist _
        rw [marksOf_cons, marksOf_cons, marksOf_cons, Frame.marks_put]
        refine List.Sublist.cons_cons _ ?_
        refine List.Sublist.trans ?_ (List.sublist_append_right _ _)
        exact Frame.marks_tail.append (.refl _)

theorem marksOf_closeFrames (owner : Token) (frames : List (Frame (Stamped α))) :
    (marksOf since loans (closeFrames owner frames).2).Sublist (marksOf since loans frames) := by
  induction frames with
  | nil => exact .refl _
  | cons frame below ih =>
      unfold closeFrames
      by_cases theirs : frame.owner = owner
      · rw [if_pos theirs]
        by_cases shared : 1 < frame.refs
        · rw [if_pos shared]
          exact .refl _
        · rw [if_neg shared]
          exact marksOf_handDown frame below
      · rw [if_neg theirs, marksOf_cons, marksOf_cons]
        exact (List.Sublist.refl _).append ih

/-- Lending moves a mark within its frame. -/
theorem marksOf_lend {top : Frame (Stamped α)} {id : Nat} {stamped : Stamped α}
    (held : top.held = some (id, stamped)) (apart : ∀ frame ∈ below, frame.owner ≠ top.owner) :
    marksOf since (⟨top.owner, id, stamped⟩ :: loans) (top.without id :: below) =
      marksOf since loans (top :: below) := by
  have emptied : top.without id = top.cleared := by
    rw [Frame.without, if_pos]
    simp [Frame.holds, Frame.id, held]
  have inside : top.cleared.marks since (⟨top.owner, id, stamped⟩ :: loans) =
      top.marks since loans := by
    rw [Frame.marks_empty rfl, Frame.marks, Frame.value?, held]
    change Loan.marksOf top.owner (⟨top.owner, id, stamped⟩ :: loans) ++ _ = _
    rw [Loan.marksOf_cons_same ⟨top.owner, id, stamped⟩]
    rfl
  rw [marksOf_cons, marksOf_cons, emptied, inside]
  congr 1
  refine List.flatMap_congr fun frame listed => ?_
  unfold Frame.marks
  have other : Loan.owner ⟨top.owner, id, stamped⟩ ≠ frame.owner := (apart frame listed).symm
  rw [Loan.marksOf_cons_other other]

theorem marksOf_giveBack {loan : Loan α} (found : frames.find? (·.owner = loan.owner) = some frame)
    (empty : frame.value? = none) :
    (marksOf since loans (editFirst loan.owner (·.put loan.id loan.stamped) frames)).Sublist
      (marksOf since (loan :: loans) frames) := by
  induction frames with
  | nil => cases found
  | cons first below ih =>
      rw [editFirst, marksOf_cons]
      by_cases theirs : first.owner = loan.owner
      · rw [List.find?_cons_of_pos (by simpa using theirs)] at found
        cases found
        rw [if_pos theirs, marksOf_cons, Frame.marks_put, Frame.marks_empty empty, theirs,
          Loan.marksOf_cons_same]
        exact (List.Sublist.refl _).append (marksOf_fewer loan below)
      · rw [List.find?_cons_of_neg (by simpa using theirs)] at found
        rw [if_neg theirs, marksOf_cons]
        exact (Frame.marks_fewer loan).append (ih found)

end Stack

end Marks

theorem Mark.time_lt {marks : List (Mark α)} {inner outer : Mark α}
    (descending : marks.Pairwise fun inner outer => outer.time < inner.time)
    (apart : [inner, outer].Sublist marks) : outer.time < inner.time := by
  have pair := descending.sublist apart
  exact (List.pairwise_cons.1 pair).1 outer (List.mem_singleton_self outer)

/-- What may be said of a loss, given the marks before and after it. -/
def Loss.isFair (before after : List (Mark α)) : Loss α → Prop
  | displaced lost kept => [.write kept, .write lost].Sublist before
  | dropped lost => .write lost ∈ before ∧
      ∀ time, .opening time ∈ after → [.opening time, .write lost].Sublist before
  | taken _ | orphaned _ => True

section Losses

variable {since : Token → Nat} {loans : List (Loan α)} {frame : Frame (Stamped α)}
  {frames : List (Frame (Stamped α))}

theorem Loss.isFair_above {loss : Loss α} {before after : List (Mark α)} (above : List (Mark α))
    (fair : loss.isFair before after) : loss.isFair (above ++ before) (above ++ after) := by
  cases loss with
  | displaced lost kept => exact List.Sublist.trans fair (List.sublist_append_right _ _)
  | taken | orphaned => trivial
  | dropped lost =>
      refine ⟨List.mem_append_right _ fair.1, fun time opened => ?_⟩
      rcases List.mem_append.1 opened with here | beneath
      · exact (List.singleton_sublist.2 here).append (List.singleton_sublist.2 fair.1)
      · exact (fair.2 time beneath).trans (List.sublist_append_right _ _)

theorem Stack.losses_handDown (frame : Frame (Stamped α)) (below : List (Frame (Stamped α))) :
    ∀ loss ∈ (handDown frame.held below).1.losses frame.value?,
      loss.isFair (marksOf since loans (frame :: below))
        (marksOf since loans (handDown frame.held below).2) := by
  intro loss listed
  obtain ⟨owner, refs, _ | ⟨id, stamped⟩⟩ := frame
  · cases listed
  · cases below with
    | nil =>
        obtain rfl := List.mem_singleton.1 listed
        refine ⟨write_mem_marksOf List.mem_cons_self rfl, fun time opened => ?_⟩
        cases opened
    | cons outer rest =>
        obtain ⟨old, held, rfl⟩ : ∃ old, outer.value? = some old ∧ loss = .displaced old stamped := by
          change loss ∈ Closed.losses (some stamped) (.propagated id outer.value?) at listed
          rcases held : outer.value? with _ | old
          · rw [held] at listed
            cases listed
          · rw [held] at listed
            exact ⟨old, rfl, List.mem_singleton.1 listed⟩
        rw [marksOf_cons]
        exact List.Sublist.append (List.singleton_sublist.2 List.mem_cons_self)
          (List.singleton_sublist.2 (write_mem_marksOf List.mem_cons_self held))

theorem Stack.losses_closeFrames (owner : Token) (frames : List (Frame (Stamped α))) :
    ∀ loss ∈ (closeFrames owner frames).1.losses
        ((frames.find? (·.owner = owner)).bind Frame.value?),
      loss.isFair (marksOf since loans frames)
        (marksOf since loans (closeFrames owner frames).2) := by
  induction frames with
  | nil => exact fun loss listed => by cases listed
  | cons frame below ih =>
      unfold closeFrames
      by_cases theirs : frame.owner = owner
      · rw [if_pos theirs, List.find?_cons_of_pos (by simpa using theirs), Option.bind_some]
        by_cases shared : 1 < frame.refs
        · rw [if_pos shared]
          exact fun loss listed => by cases listed
        · rw [if_neg shared]
          exact losses_handDown frame below
      · rw [if_neg theirs, List.find?_cons_of_neg (by simpa using theirs)]
        intro loss listed
        rw [marksOf_cons, marksOf_cons]
        exact Loss.isFair_above _ (ih loss listed)

/-- A value that comes back to an occupied frame is older than the one it finds there. -/
theorem Stack.displaced_loan {loan : Loan α} {kept : Stamped α}
    (found : frames.find? (·.owner = loan.owner) = some frame) (held : frame.value? = some kept) :
    [.write kept, .write loan.stamped].Sublist (marksOf since (loan :: loans) frames) := by
  have theirs : frame.owner = loan.owner := by simpa using List.find?_some found
  obtain ⟨above, below, rfl⟩ := List.append_of_mem (List.mem_of_find?_eq_some found)
  have inside : [.write kept, .write loan.stamped].Sublist (frame.marks since (loan :: loans)) := by
    rw [Frame.marks, held, theirs, Loan.marksOf_cons_same]
    exact List.Sublist.cons_cons _ (List.singleton_sublist.2 List.mem_cons_self)
  rw [marksOf_append, marksOf_cons]
  exact (inside.trans (List.sublist_append_left _ _)).trans (List.sublist_append_right _ _)

end Losses

namespace Timeline

structure Advances (line : Timeline α) (set : Option (Mark α)) (later : Timeline α) : Prop where
  ticked : later.clock = line.clock + set.toList.length
  current : ∀ mark ∈ set, mark.time = line.clock
  marks : later.marks.Sublist (set.toList ++ line.marks)
  records : later.records = set.toList.filterMap Mark.write? ++ line.records
  losses : ∃ more, later.losses = more ++ line.losses ∧
    ∀ loss ∈ more, loss.isFair (set.toList ++ line.marks) later.marks

/-- The marks descend from the innermost frame outward, the records go back in time, and no loss
contradicts them. -/
structure Ordered (line : Timeline α) : Prop where
  descending : line.marks.Pairwise fun inner outer => outer.time < inner.time
  past : ∀ mark ∈ line.marks, mark.time < line.clock
  numbered : line.records.Pairwise fun newer older => older.time < newer.time
  known : ∀ record ∈ line.records, record.time < line.clock
  displaced : ∀ lost kept, .displaced lost kept ∈ line.losses → lost.time < kept.time
  dropped : ∀ lost, .dropped lost ∈ line.losses →
    lost.time < line.clock ∧ ∀ time, .opening time ∈ line.marks → lost.time < time

section Order

variable {line later : Timeline α} {set : Option (Mark α)}

theorem Ordered.before (ordered : line.Ordered) (current : ∀ mark ∈ set, mark.time = line.clock) :
    (set.toList ++ line.marks).Pairwise fun inner outer => outer.time < inner.time := by
  rcases set with _ | mark
  · exact ordered.descending
  · refine List.pairwise_cons.2 ⟨fun older listed => ?_, ordered.descending⟩
    rw [current mark rfl]
    exact ordered.past older listed

theorem Ordered.records_advance (ordered : line.Ordered) (advances : line.Advances set later) :
    (later.records.Pairwise fun newer older => older.time < newer.time) ∧
      ∀ record ∈ later.records, record.time < later.clock := by
  rw [advances.records, advances.ticked]
  have known : ∀ count, ∀ record ∈ line.records, record.time < line.clock + count :=
    fun count record listed => Nat.lt_add_right count (ordered.known record listed)
  rcases set with _ | ⟨stamped⟩ | time
  · exact ⟨ordered.numbered, known 0⟩
  · have now : stamped.time = line.clock := advances.current (.write stamped) rfl
    refine ⟨List.pairwise_cons.2 ⟨fun older listed => ?_, ordered.numbered⟩, ?_⟩
    · rw [now]
      exact ordered.known older listed
    · refine List.forall_mem_cons.2 ⟨?_, known 1⟩
      rw [now]
      exact Nat.lt_succ_self _
  · exact ⟨ordered.numbered, known 1⟩

theorem Ordered.advance (ordered : line.Ordered) (advances : line.Advances set later) :
    later.Ordered := by
  have before := ordered.before advances.current
  have past : ∀ mark ∈ set.toList ++ line.marks, mark.time < later.clock := by
    rw [advances.ticked]
    rcases set with _ | fresh
    · exact ordered.past
    · intro mark listed
      rcases List.mem_cons.1 listed with rfl | older
      · rw [advances.current mark rfl]
        exact Nat.lt_succ_self _
      · exact Nat.lt_succ_of_lt (ordered.past mark older)
  obtain ⟨numbered, known⟩ := ordered.records_advance advances
  obtain ⟨more, losses, fair⟩ := advances.losses
  refine ⟨before.sublist advances.marks, fun mark listed => past mark (advances.marks.subset listed),
    numbered, known, fun lost kept listed => ?_, fun lost listed => ?_⟩
  · rw [losses] at listed
    rcases List.mem_append.1 listed with recent | old
    · exact Mark.time_lt before (fair _ recent)
    · exact ordered.displaced lost kept old
  · rw [losses] at listed
    rcases List.mem_append.1 listed with recent | old
    · obtain ⟨inside, apart⟩ := fair _ recent
      exact ⟨past _ inside, fun time opened => Mark.time_lt before (apart time opened)⟩
    · obtain ⟨early, opened⟩ := ordered.dropped lost old
      rw [advances.ticked]
      refine ⟨by omega, fun time listed => ?_⟩
      rcases List.mem_append.1 (advances.marks.subset listed) with fresh | older
      · rw [← advances.current (.opening time) (by simpa using fresh)] at early
        exact early
      · exact opened time older

end Order

section Operations

theorem Advances.refl (line : Timeline α) : line.Advances none line where
  ticked := rfl
  current := by simp
  marks := .refl _
  records := rfl
  losses := ⟨[], rfl, by simp⟩

theorem advances_openFor {owner : Token} {line : Timeline α} (alive : line.alive = true)
    (apart : ∀ other ∈ line.owners, other ≠ owner)
    (lenders : ∀ loan ∈ line.loans, loan.owner ≠ owner) :
    line.Advances (some (.opening line.clock)) (line.openFor owner) := by
  have others : ∀ frame ∈ line.stack.frames, frame.owner ≠ owner :=
    fun frame listed => apart _ (List.mem_map_of_mem listed)
  have opened : line.openFor owner =
      { line with
        clock := line.clock + 1
        since := Function.update line.since owner line.clock
        stack := ⟨Frame.fresh owner :: line.stack.frames⟩ } := by
    rw [openFor, if_pos alive, Stack.openFor_apart others]
  have first : (Frame.fresh owner).marks (Function.update line.since owner line.clock) line.loans =
      [.opening line.clock] := by
    have none : Loan.marksOf owner line.loans = [] := by
      unfold Loan.marksOf
      rw [List.filter_eq_nil_iff.2 (by simpa using lenders), List.map_nil]
    rw [Frame.marks_empty rfl]
    change Loan.marksOf owner line.loans ++ [.opening (Function.update line.since owner _ owner)] = _
    rw [none, Function.update_self, List.nil_append]
  have marks : (line.openFor owner).marks = .opening line.clock :: line.marks := by
    rw [opened]
    unfold Timeline.marks
    rw [Stack.marksOf_cons, first]
    exact congrArg (Mark.opening line.clock :: ·) (Stack.marksOf_update others _)
  refine ⟨by rw [opened]; rfl, by simp [Mark.time], ?_, by rw [opened]; rfl,
    ⟨[], by rw [opened]; rfl, by simp⟩⟩
  rw [marks]
  exact .refl _

theorem advances_record (id : Nat) (value : α) (line : Timeline α) :
    line.Advances (some (.write (line.stamp value))) (line.record id value) where
  ticked := rfl
  current := by simp [Mark.time, stamp]
  marks := Stack.marksOf_put id (line.stamp value) line.stack
  records := rfl
  losses := by
    refine ⟨_, rfl, fun loss listed => ?_⟩
    obtain ⟨clock, alive, since, ⟨_ | ⟨top, below⟩⟩, loans, records, losses⟩ := line
    · obtain rfl := List.mem_singleton.1 listed
      exact ⟨List.mem_cons_self, fun time opened => by cases opened⟩
    · obtain ⟨old, held, rfl⟩ : ∃ old, top.value? = some old ∧ loss = .displaced old ⟨value, clock⟩ := by
        simpa [Stack.put, Stored.losses, stamp, eq_comm] using listed
      refine List.Sublist.cons_cons _ (List.singleton_sublist.2 ?_)
      exact Stack.write_mem_marksOf List.mem_cons_self held

theorem advances_close (owner : Token) (line : Timeline α) :
    line.Advances none (line.close owner) where
  ticked := rfl
  current := by simp
  marks := Stack.marksOf_closeFrames owner line.stack.frames
  records := rfl
  losses := ⟨_, rfl, fun loss listed => Stack.losses_closeFrames owner line.stack.frames loss listed⟩

theorem advances_take (id : Nat) (line : Timeline α) : line.Advances none (line.take id) where
  ticked := rfl
  current := by simp
  marks := Stack.marksOf_takeFor id line.stack
  records := rfl
  losses := by
    refine ⟨_, rfl, fun loss listed => ?_⟩
    obtain ⟨stamped, _, rfl⟩ : ∃ stamped, (line.stack.takeFor id).1 = some stamped ∧
        loss = .taken stamped := by simpa [eq_comm] using listed
    trivial

theorem advances_lend {id : Nat} {line : Timeline α} {top : Frame (Stamped α)}
    (innermost : line.stack.top? = some top) (distinct : line.owners.Nodup) :
    line.Advances none (line.lend top.owner id) := by
  unfold lend
  rcases taken : (line.stack.takeFor id).1 with _ | stamped
  · exact .refl line
  · refine ⟨rfl, by simp, ?_, rfl, ⟨[], rfl, by simp⟩⟩
    obtain ⟨clock, alive, since, ⟨_ | ⟨first, below⟩⟩, loans, records, losses⟩ := line
    · cases innermost
    · cases innermost
      have held : top.held = some (id, stamped) := Frame.held_of_valueFor taken
      have apart : ∀ frame ∈ below, frame.owner ≠ top.owner := fun frame listed same =>
        (List.nodup_cons.1 distinct).1 (same ▸ List.mem_map_of_mem listed)
      change (Stack.marksOf since (⟨top.owner, id, stamped⟩ :: loans)
        (top.without id :: below)).Sublist _
      rw [Stack.marksOf_lend held apart]
      exact .refl _

theorem advances_giveBack (line : Timeline α) : line.Advances none line.giveBack := by
  obtain ⟨clock, alive, since, ⟨frames⟩, _ | ⟨loan, rest⟩, records, losses⟩ := line
  · exact .refl _
  · unfold giveBack
    have fewer : (Stack.marksOf since rest frames).Sublist
        (Stack.marksOf since (loan :: rest) frames) := Stack.marksOf_fewer loan frames
    rcases found : frames.find? (·.owner = loan.owner) with _ | frame
    · simp only [Stack.frameOf?, found]
      exact ⟨rfl, by simp, fewer, rfl, ⟨[_], rfl, by simp [Loss.isFair]⟩⟩
    · rcases held : frame.value? with _ | kept
      · simp only [Stack.frameOf?, found, held]
        exact ⟨rfl, by simp, Stack.marksOf_giveBack found held, rfl, ⟨[], rfl, by simp⟩⟩
      · simp only [Stack.frameOf?, found, held]
        refine ⟨rfl, by simp, fewer, rfl, ⟨[_], rfl, fun loss listed => ?_⟩⟩
        obtain rfl := List.mem_singleton.1 listed
        exact Stack.displaced_loan found held

theorem advances_endStorage (line : Timeline α) : line.Advances none line.endStorage where
  ticked := rfl
  current := by simp
  marks := List.nil_sublist _
  records := rfl
  losses := by
    refine ⟨_, rfl, fun loss listed => ?_⟩
    obtain ⟨lost, stored, rfl⟩ := List.mem_map.1 listed
    obtain ⟨frame, inside, held⟩ := List.mem_filterMap.1 stored
    refine ⟨Stack.write_mem_marksOf (List.mem_reverse.1 inside) held, fun time opened => ?_⟩
    cases opened

end Operations

end Timeline

end FaultRelay

import FaultRelay.Proofs.Census

/-! A stretch of a timeline that starts when a frame is innermost and ends when it is innermost
again. The last value written in between, or the one that the frame held from the start, has gone
nowhere by itself: the frame holds it still, unless it was moved out or lent. -/
namespace FaultRelay.Timeline

variable {α : Type}

section Places

variable {line : Timeline α} {drawn : Nat} {stamped : Stamped α}

theorem isComplete.mem_records (complete : line.isComplete) : stamped ∈ line.records ↔
    (∃ frame ∈ line.stack.frames, frame.value? = some stamped) ∨
      stamped ∈ line.loans.map Loan.stamped ∨ stamped ∈ line.losses.map Loss.lost := by
  rw [← Multiset.mem_coe, ← complete, Multiset.mem_add, Multiset.mem_add, or_assoc]
  rw [Multiset.mem_coe, Multiset.mem_coe, Stack.contents, Stack.contentsOf, Multiset.mem_coe,
    List.mem_filterMap]

theorem Sound.lost_apart (sound : line.Sound drawn) {frame : Frame (Stamped α)}
    (listed : frame ∈ line.stack.frames) (held : frame.value? = some stamped) :
    stamped ∉ line.losses.map Loss.lost := by
  intro lost
  have once : line.records.Nodup := by
    refine sound.ordered.numbered.imp fun later same => ?_
    rw [same] at later
    exact lt_irrefl _ later
  have census := sound.complete
  unfold isComplete at census
  have distinct : (line.stack.contents + ↑(line.loans.map Loan.stamped) +
      ↑(line.losses.map Loss.lost) : Multiset (Stamped α)).Nodup := by
    rw [census]
    exact Multiset.coe_nodup.2 once
  have apart := (Multiset.nodup_add.1 distinct).2.2
  have inside : stamped ∈ line.stack.contents + ↑(line.loans.map Loan.stamped) := by
    refine Multiset.mem_add.2 (.inl ?_)
    rw [Stack.contents, Stack.contentsOf, Multiset.mem_coe]
    exact List.mem_filterMap.2 ⟨frame, listed, held⟩
  exact Multiset.disjoint_left.1 apart inside (Multiset.mem_coe.2 lost)

/-- What the frames beneath hold was written before the frame was opened. -/
theorem Sound.time_beneath (sound : line.Sound drawn) {above below : List (Frame (Stamped α))}
    {frame outer : Frame (Stamped α)} (frames : line.stack.frames = above ++ frame :: below)
    (beneath : outer ∈ below) (held : outer.value? = some stamped) :
    stamped.time < line.since frame.owner := by
  have apart : [.opening (line.since frame.owner), .write stamped].Sublist line.marks := by
    unfold Timeline.marks
    rw [frames, Stack.marksOf_append, Stack.marksOf_cons]
    refine List.Sublist.trans ?_ (List.sublist_append_right _ _)
    refine List.Sublist.append (List.singleton_sublist.2 ?_)
      (List.singleton_sublist.2 (Stack.write_mem_marksOf beneath held))
    exact List.mem_append_right _ (List.mem_append_right _ (List.mem_singleton_self _))
  exact Mark.time_lt sound.ordered.descending apart

/-- What a frame holds was written after the frame was opened. -/
theorem Sound.time_held (sound : line.Sound drawn) {frame : Frame (Stamped α)}
    (listed : frame ∈ line.stack.frames) (held : frame.value? = some stamped) :
    line.since frame.owner < stamped.time := by
  have apart : [.write stamped, .opening (line.since frame.owner)].Sublist line.marks := by
    obtain ⟨above, below, frames⟩ := List.append_of_mem listed
    unfold Timeline.marks
    rw [frames, Stack.marksOf_append, Stack.marksOf_cons, Frame.marks, held]
    refine List.Sublist.trans ?_ (List.sublist_append_right _ _)
    refine List.Sublist.trans ?_ (List.sublist_append_left _ _)
    refine List.Sublist.cons_cons _ (List.singleton_sublist.2 ?_)
    exact List.mem_append_right _ (List.mem_append_right _ (List.mem_singleton_self _))
  exact Mark.time_lt sound.ordered.descending apart

end Places

/-- Nothing in the frames was written after it, and nothing has displaced it. -/
structure Uncontested (stamped : Stamped α) (line : Timeline α) : Prop where
  latest : ∀ other, .write other ∈ line.marks → other.time ≤ stamped.time
  kept : ∀ other, .displaced stamped other ∉ line.losses

section Latest

variable {line later : Timeline α} {drawn : Nat} {stamped : Stamped α} {set : Option (Mark α)}

theorem Uncontested.start (sound : line.Sound drawn) {frame : Frame (Stamped α)}
    (innermost : line.stack.top? = some frame) (held : frame.value? = some stamped) :
    Uncontested stamped line where
  latest := by
    intro other listed
    have descending := sound.ordered.descending
    obtain ⟨below, frames⟩ : ∃ below, line.stack.frames = frame :: below :=
      ⟨_, (List.eq_cons_of_mem_head? innermost)⟩
    unfold Timeline.marks at listed descending
    rw [frames, Stack.marksOf_cons, Frame.marks, held] at listed descending
    rcases List.mem_cons.1 listed with same | older
    · cases same
      exact le_refl _
    · exact ((List.pairwise_cons.1 descending).1 _ older).le
  kept := by
    intro other lost
    refine sound.lost_apart (List.mem_of_head? innermost) held ?_
    exact List.mem_map.2 ⟨_, lost, rfl⟩

theorem Uncontested.step (advances : line.Advances set later)
    (latest : ∀ other, .write other ∈ set.toList ++ line.marks → other.time ≤ stamped.time)
    (descending : (set.toList ++ line.marks).Pairwise fun inner outer => outer.time < inner.time)
    (kept : ∀ other, .displaced stamped other ∉ line.losses) : Uncontested stamped later where
  latest := fun other listed => latest other (advances.marks.subset listed)
  kept := by
    intro other lost
    obtain ⟨more, losses, fair⟩ := advances.losses
    rw [losses] at lost
    rcases List.mem_append.1 lost with recent | old
    · have apart := fair _ recent
      have younger := Mark.time_lt descending apart
      have older := latest other (apart.subset List.mem_cons_self)
      exact absurd younger (not_lt.2 older)
    · exact kept other old

theorem Uncontested.advance (uncontested : Uncontested stamped line) (ordered : line.Ordered)
    (advances : line.Advances set later) (nothing : set.toList.filterMap Mark.write? = []) :
    Uncontested stamped later := by
  refine .step advances (fun other listed => ?_) (ordered.before advances.current) uncontested.kept
  rcases List.mem_append.1 listed with fresh | older
  · have written : other ∈ set.toList.filterMap Mark.write? :=
      List.mem_filterMap.2 ⟨.write other, fresh, rfl⟩
    rw [nothing] at written
    cases written
  · exact uncontested.latest other older

theorem Uncontested.of_write (sound : line.Sound drawn)
    (advances : line.Advances (some (.write stamped)) later) : Uncontested stamped later := by
  have now : stamped.time = line.clock := advances.current (.write stamped) rfl
  refine .step advances (fun other listed => ?_) (sound.ordered.before advances.current)
    fun other lost => ?_
  · rcases List.mem_cons.1 listed with same | older
    · cases same
      exact le_refl _
    · rw [now]
      exact (sound.ordered.past (.write other) older).le
  · have known := sound.complete.mem_records.2 (.inr (.inr (List.mem_map.2 ⟨_, lost, rfl⟩)))
    have early := sound.ordered.known _ known
    change stamped.time < line.clock at early
    rw [now] at early
    exact lt_irrefl _ early

end Latest

/-- How a timeline goes on from `first`, where the innermost frame held `held`: `made` was written
since, the last first. -/
structure Stretch (drawn : Nat) (first : Timeline α) (held : Option (Stamped α))
    (made : List (Stamped α)) (line : Timeline α) : Prop where
  since : ∀ owner : Token, owner.value ≤ drawn → line.since owner = first.since owner
  clock : first.clock ≤ line.clock
  records : line.records = made ++ first.records
  recent : ∀ stamped ∈ made, first.clock ≤ stamped.time
  losses : ∃ more, line.losses = more ++ first.losses
  uncontested : ∀ stamped ∈ (made ++ held.toList).head?, Uncontested stamped line

section Run

variable {first line later : Timeline α} {drawn now more : Nat} {held : Option (Stamped α)}
  {made : List (Stamped α)}

theorem Stretch.start (drawn : Nat) (uncontested : ∀ stamped ∈ held, Uncontested stamped first) :
    Stretch drawn first held [] first where
  since := fun _ _ => rfl
  clock := le_refl _
  records := rfl
  recent := by simp
  losses := ⟨[], rfl⟩
  uncontested := fun stamped latest => uncontested stamped (by simpa using latest)

theorem Stretch.step (stretch : Stretch drawn first held made line) (sound : line.Sound now)
    (drew : drawn ≤ now) (moves : line.Moves now more later) :
    ∃ made, Stretch drawn first held made later := by
  obtain ⟨set, advances⟩ := moves.advances
  have since : ∀ owner : Token, owner.value ≤ drawn → later.since owner = first.since owner :=
    fun owner old => (moves.since owner (old.trans drew)).trans (stretch.since owner old)
  have clock : first.clock ≤ later.clock := by
    rw [advances.ticked]
    exact Nat.le_add_right_of_le stretch.clock
  have losses : ∃ more, later.losses = more ++ first.losses := by
    obtain ⟨old, before⟩ := stretch.losses
    obtain ⟨fresh, after, _⟩ := advances.losses
    exact ⟨fresh ++ old, by rw [after, before, List.append_assoc]⟩
  have records := advances.records
  rw [stretch.records] at records
  rcases written : set.toList.filterMap Mark.write? with _ | ⟨stamped, rest⟩
  · rw [written] at records
    exact ⟨made, since, clock, records, stretch.recent, losses, fun stamped latest =>
      (stretch.uncontested stamped latest).advance sound.ordered advances written⟩
  · obtain rfl : set = some (.write stamped) := by
      rcases set with _ | ⟨other⟩ | time
      · cases written
      · cases written
        rfl
      · cases written
    refine ⟨stamped :: made, since, clock, records, ?_, losses, fun latest here => ?_⟩
    · refine List.forall_mem_cons.2 ⟨?_, stretch.recent⟩
      rw [show stamped.time = line.clock from advances.current (.write stamped) rfl]
      exact stretch.clock
    · obtain rfl : stamped = latest := by simpa using here
      exact .of_write sound advances

end Run

section Outcome

variable {first last : Timeline α} {drawn now : Nat} {frame : Frame (Stamped α)}
  {made : List (Stamped α)}

/-- A frame that was innermost is innermost again when no younger frame is left. -/
theorem top_again (owned : first.Owned drawn) (again : last.Owned now)
    (innermost : first.stack.top? = some frame) (still : frame.owner ∈ last.owners)
    (left : ∀ owner ∈ last.owners, owner ∈ first.owners) :
    ∃ inner, last.stack.top? = some inner ∧ inner.owner = frame.owner := by
  have recent := owned.recent
  have later := again.recent
  unfold owners at *
  rcases frames : last.stack.frames with _ | ⟨inner, below⟩
  · rw [frames] at still
    cases still
  · refine ⟨inner, by rw [Stack.top?, frames]; rfl, ?_⟩
    rw [List.eq_cons_of_mem_head? innermost, List.map_cons] at left recent
    rw [frames, List.map_cons] at still left later
    rcases List.mem_cons.1 (left inner.owner List.mem_cons_self) with same | older
    · exact same
    · rcases List.mem_cons.1 still with same | beneath
      · exact same.symm
      · have up := (List.pairwise_cons.1 recent).1 _ older
        have down := (List.pairwise_cons.1 later).1 _ beneath
        exact absurd down (not_lt.2 up.le)

theorem Stretch.holds_latest (start : first.Sound drawn) (sound : last.Sound now)
    (innermost : first.stack.top? = some frame)
    (stretch : Stretch drawn first frame.value? made last) {inner : Frame (Stamped α)}
    (top : last.stack.top? = some inner) (same : inner.owner = frame.owner)
    {stamped : Stamped α} (latest : (made ++ frame.value?.toList).head? = some stamped) :
    inner.value? = some stamped ∨ stamped ∈ last.loans.map Loan.stamped ∨
      .taken stamped ∈ last.losses ∨ .orphaned stamped ∈ last.losses := by
  have listed := List.mem_of_head? innermost
  have opened : last.since inner.owner = first.since frame.owner := by
    rw [same]
    exact stretch.since _ (start.owned.bounded _ (List.mem_map_of_mem listed))
  have after : last.since inner.owner < stamped.time := by
    rw [opened]
    rcases made with _ | ⟨newest, older⟩
    · exact start.time_held listed (by simpa using latest)
    · obtain rfl : newest = stamped := by simpa using latest
      refine lt_of_lt_of_le ?_ (stretch.recent newest List.mem_cons_self)
      exact start.ordered.past (.opening _) (Stack.opening_mem_marksOf listed)
  have known : stamped ∈ last.records := by
    rw [stretch.records]
    rcases made with _ | ⟨newest, older⟩
    · refine List.mem_append_right _ (start.complete.mem_records.2 (.inl ?_))
      exact ⟨frame, listed, by simpa using latest⟩
    · obtain rfl : newest = stamped := by simpa using latest
      exact List.mem_cons_self
  have frames := List.eq_cons_of_mem_head? top
  -- the value is somewhere; beneath it cannot be, being younger than the opening of the frame
  rcases sound.complete.mem_records.1 known with ⟨holder, inside, held⟩ | lent | lost
  · rw [frames] at inside
    rcases List.mem_cons.1 inside with rfl | beneath
    · exact .inl held
    · have split : last.stack.frames = [] ++ inner :: _ := frames
      have before := sound.time_beneath split beneath held
      exact absurd before (not_lt.2 after.le)
  · exact .inr (.inl lent)
  · obtain ⟨loss, inside, rfl⟩ := List.mem_map.1 lost
    cases loss with
    | displaced old kept => exact absurd inside ((stretch.uncontested old latest).kept kept)
    | taken => exact .inr (.inr (.inl inside))
    | orphaned => exact .inr (.inr (.inr inside))
    | dropped old =>
        have marked : .opening (last.since inner.owner) ∈ last.marks :=
          Stack.opening_mem_marksOf (List.mem_of_head? top)
        have before := (sound.ordered.dropped old inside).2 _ marked
        exact absurd before (not_lt.2 after.le)

/-- When nothing was written and the frame was empty, it holds nothing but what it had lent. -/
theorem Stretch.holds_nothing (start : first.Sound drawn) (sound : last.Sound now)
    (innermost : first.stack.top? = some frame)
    (stretch : Stretch drawn first frame.value? made last) {inner : Frame (Stamped α)}
    (top : last.stack.top? = some inner) (same : inner.owner = frame.owner)
    (latest : made ++ frame.value?.toList = []) {stamped : Stamped α}
    (held : inner.value? = some stamped) : stamped ∈ first.loans.map Loan.stamped := by
  obtain ⟨rfl, empty⟩ := List.append_eq_nil_iff.1 latest
  have listed := List.mem_of_head? innermost
  have inside := List.mem_of_head? top
  have opened : last.since inner.owner = first.since frame.owner := by
    rw [same]
    exact stretch.since _ (start.owned.bounded _ (List.mem_map_of_mem listed))
  have after := sound.time_held inside held
  rw [opened] at after
  have known : stamped ∈ first.records := by
    have written := sound.complete.mem_records.2 (.inl ⟨inner, inside, held⟩)
    rwa [stretch.records] at written
  have frames := List.eq_cons_of_mem_head? innermost
  rcases start.complete.mem_records.1 known with ⟨holder, place, there⟩ | lent | lost
  · rw [frames] at place
    rcases List.mem_cons.1 place with rfl | beneath
    · rw [there] at empty
      cases empty
    · have split : first.stack.frames = [] ++ frame :: _ := frames
      have before := start.time_beneath split beneath there
      exact absurd before (not_lt.2 after.le)
  · exact lent
  · obtain ⟨more, losses⟩ := stretch.losses
    refine absurd ?_ (sound.lost_apart inside held)
    rw [losses, List.map_append]
    exact List.mem_append_right _ lost

end Outcome

end FaultRelay.Timeline

import FaultRelay.Proofs.Outline
import FaultRelay.Proofs.Timeline

/-! The census of a timeline: where the values that were recorded are, and who owns the frames. Both
are kept by every operation, so that a timeline of a run is sound throughout. -/
namespace FaultRelay.Timeline

variable {α : Type}

/-- Every value that was recorded is in a frame, on loan or lost, as often as it was recorded. -/
def isComplete (line : Timeline α) : Prop :=
  line.stack.contents + ↑(line.loans.map Loan.stamped) + ↑(line.losses.map Loss.lost) =
    (↑line.records : Multiset (Stamped α))

section Census

variable {line : Timeline α}

theorem lost_put (id : Nat) (stamped : Stamped α) (stack : Stack (Stamped α)) :
    stack.contents + {stamped} = (stack.put id stamped).2.contents +
      ↑(((stack.put id stamped).1.losses stamped).map Loss.lost) := by
  obtain ⟨_ | ⟨top, below⟩⟩ := stack
  · rfl
  · have law := Stack.contents_put id stamped ⟨top :: below⟩
    have lost : ((Stored.stored top.value?).losses stamped).map Loss.lost = top.value?.toList := by
      cases top.value? <;> rfl
    change _ = Stack.contents _ + Multiset.ofList (((Stored.stored top.value?).losses stamped).map _)
    rw [lost]
    exact law

theorem lost_closeFrames (owner : Token) (frames : List (Frame (Stamped α))) :
    ((Stack.closeFrames owner frames).1.losses
      ((frames.find? (·.owner = owner)).bind Frame.value?)).map Loss.lost =
        (Stack.closeFrames owner frames).1.freed := by
  induction frames with
  | nil => rfl
  | cons frame below ih =>
      unfold Stack.closeFrames
      by_cases theirs : frame.owner = owner
      · rw [if_pos theirs, List.find?_cons_of_pos (by simpa using theirs), Option.bind_some]
        by_cases shared : 1 < frame.refs
        · rw [if_pos shared]
          rfl
        · rw [if_neg shared]
          obtain ⟨_, _, _ | ⟨id, stamped⟩⟩ := frame
          · rfl
          · cases below with
            | nil => rfl
            | cons outer rest =>
                change (Closed.losses (some stamped) (.propagated id outer.value?)).map _ =
                  (Closed.propagated id outer.value?).freed
                cases outer.value? <;> rfl
      · rw [if_neg theirs, List.find?_cons_of_neg (by simpa using theirs)]
        exact ih

theorem isComplete_openFor (complete : line.isComplete) (owner : Token) :
    (line.openFor owner).isComplete := by
  unfold openFor
  split
  · unfold isComplete at *
    rw [← complete, ← Stack.contents_openFor owner line.stack]
  · exact complete

theorem isComplete_record (complete : line.isComplete) (id : Nat) (value : α) :
    (line.record id value).isComplete := by
  have law := lost_put id (line.stamp value) line.stack
  unfold isComplete record at *
  rw [List.map_append, ← Multiset.coe_add, ← Multiset.cons_coe, ← complete,
    ← Multiset.singleton_add]
  calc (line.stack.put id (line.stamp value)).2.contents + ↑(line.loans.map Loan.stamped) +
        (↑(((line.stack.put id (line.stamp value)).1.losses (line.stamp value)).map Loss.lost) +
          ↑(line.losses.map Loss.lost))
      = ((line.stack.put id (line.stamp value)).2.contents +
          ↑(((line.stack.put id (line.stamp value)).1.losses (line.stamp value)).map Loss.lost)) +
          ↑(line.loans.map Loan.stamped) + ↑(line.losses.map Loss.lost) := by abel
    _ = _ := by rw [← law]; abel

theorem isComplete_lose (complete : line.isComplete) {stack : Stack (Stamped α)}
    {losses : List (Loss α)} {freed : List (Stamped α)} (lost : losses.map Loss.lost = freed)
    (law : line.stack.contents = stack.contents + ↑freed) :
    { line with stack := stack, losses := losses ++ line.losses }.isComplete := by
  unfold isComplete at *
  rw [List.map_append, ← Multiset.coe_add, lost, ← complete, law]
  abel

theorem isComplete_close (complete : line.isComplete) (owner : Token) :
    (line.close owner).isComplete :=
  isComplete_lose complete (lost_closeFrames owner line.stack.frames)
    (Stack.contents_close owner line.stack)

theorem isComplete_take (complete : line.isComplete) (id : Nat) : (line.take id).isComplete := by
  refine isComplete_lose complete ?_ (Stack.contents_takeFor id line.stack)
  cases (line.stack.takeFor id).1 <;> rfl

theorem isComplete_lend (complete : line.isComplete) (owner : Token) (id : Nat) :
    (line.lend owner id).isComplete := by
  have law := Stack.contents_takeFor id line.stack
  unfold lend
  rcases taken : (line.stack.takeFor id).1 with _ | stamped
  · exact complete
  · rw [taken] at law
    unfold isComplete at *
    rw [List.map_cons, ← Multiset.cons_coe, ← Multiset.singleton_add, ← complete, law]
    change _ = Stack.contents _ + {stamped} + _ + _
    abel

theorem isComplete_giveBack (complete : line.isComplete) : line.giveBack.isComplete := by
  obtain ⟨clock, alive, since, stack, _ | ⟨loan, rest⟩, records, losses⟩ := line
  · exact complete
  · have returned : stack.contents + ({loan.stamped} + ↑(rest.map Loan.stamped)) +
        ↑(losses.map Loss.lost) = (↑records : Multiset (Stamped α)) := complete
    unfold giveBack
    rcases found : stack.frameOf? loan.owner with _ | frame
    · simp only [found, isComplete]
      rw [List.map_cons, ← Multiset.cons_coe, ← Multiset.singleton_add, ← returned]
      change _ + _ + ({loan.stamped} + _) = _
      abel
    · rcases held : frame.value? with _ | kept
      · have empty : frame.held = none := Option.map_eq_none_iff.1 held
        simp only [found, held, isComplete]
        rw [Stack.contents_onFrame loan.id loan.stamped found empty, ← returned]
        abel
      · simp only [found, held, isComplete]
        rw [List.map_cons, ← Multiset.cons_coe, ← Multiset.singleton_add, ← returned]
        change _ + _ + ({loan.stamped} + _) = _
        abel

theorem isComplete_endStorage (complete : line.isComplete) : line.endStorage.isComplete := by
  have lost : (line.stack.values.map Loss.dropped).map Loss.lost = line.stack.values := by
    rw [List.map_map]
    exact List.map_id' _
  refine isComplete_lose complete lost ?_
  rw [Stack.contents_values]
  exact (zero_add _).symm

end Census

/-- The owners of the frames, the most recent first, have drawn their tokens, and so has everyone
with a value on loan. -/
structure Owned (drawn : Nat) (line : Timeline α) : Prop where
  recent : line.owners.Pairwise fun inner outer => outer.value < inner.value
  bounded : ∀ owner ∈ line.owners, owner.value ≤ drawn
  lenders : ∀ loan ∈ line.loans, loan.owner.value ≤ drawn

section Owners

variable {line later : Timeline α} {drawn : Nat}

theorem owners_eq (line : Timeline α) : line.owners = line.stack.outline.map Prod.fst := by
  rw [Stack.outline, Stack.outlineOf, List.map_map]
  rfl

theorem Owned.nodup (owned : line.Owned drawn) : line.owners.Nodup := by
  refine owned.recent.imp fun later same => ?_
  rw [same] at later
  exact lt_irrefl _ later

theorem Owned.keep (owned : line.Owned drawn) (owners : later.owners.Sublist line.owners)
    (loans : ∀ loan ∈ later.loans, loan ∈ line.loans ∨ loan.owner ∈ line.owners) :
    later.Owned drawn where
  recent := owned.recent.sublist owners
  bounded := fun owner listed => owned.bounded owner (owners.subset listed)
  lenders := fun loan listed =>
    (loans loan listed).elim (owned.lenders loan) (owned.bounded loan.owner)

theorem Owned.mono (owned : line.Owned drawn) {more : Nat} (le : drawn ≤ more) : line.Owned more :=
  ⟨owned.recent, fun owner listed => (owned.bounded owner listed).trans le,
    fun loan listed => (owned.lenders loan listed).trans le⟩

theorem Owned.openFor (owned : line.Owned drawn) {owner : Token} (fresh : owner.value = drawn + 1) :
    (line.openFor owner).Owned (drawn + 1) := by
  have wider := owned.mono (Nat.le_succ drawn)
  unfold Timeline.openFor
  split
  · have above : ∀ other ∈ line.owners, other.value < owner.value := by
      intro other listed
      rw [fresh]
      exact Nat.lt_succ_of_le (owned.bounded other listed)
    have apart : ∀ frame ∈ line.stack.frames, frame.owner ≠ owner := by
      intro frame listed same
      have less := above frame.owner (List.mem_map_of_mem listed)
      rw [same] at less
      exact lt_irrefl _ less
    rw [Stack.openFor_apart apart]
    refine ⟨List.pairwise_cons.2 ⟨above, owned.recent⟩, ?_, wider.lenders⟩
    exact List.forall_mem_cons.2 ⟨fresh.le, wider.bounded⟩
  · exact wider

theorem owners_record (id : Nat) (value : α) (line : Timeline α) :
    (line.record id value).owners = line.owners := by
  rw [owners_eq, owners_eq]
  exact congrArg _ (Stack.outline_put id (line.stamp value) line.stack)

theorem owners_takeFor (id : Nat) (line : Timeline α) :
    (line.stack.takeFor id).2.frames.map Frame.owner = line.owners := by
  have same := congrArg (List.map Prod.fst) (Stack.outline_takeFor id line.stack)
  rw [Stack.outline, Stack.outlineOf, List.map_map] at same
  rw [owners_eq]
  exact same

theorem Owned.lend (owned : line.Owned drawn) {top : Frame (Stamped α)}
    (innermost : line.stack.top? = some top) (id : Nat) : (line.lend top.owner id).Owned drawn := by
  unfold Timeline.lend
  split
  · exact owned
  · refine owned.keep ?_ fun loan listed => ?_
    · rw [← owners_takeFor id line]
      exact .refl _
    · rcases List.mem_cons.1 listed with rfl | older
      · exact .inr (List.mem_map_of_mem (List.mem_of_head? innermost))
      · exact .inl older

theorem Owned.giveBack (owned : line.Owned drawn) : line.giveBack.Owned drawn := by
  obtain ⟨clock, alive, since, stack, _ | ⟨loan, rest⟩, records, losses⟩ := line
  · exact owned
  · have fewer : ∀ other ∈ rest, other ∈ loan :: rest ∨ other.owner ∈ stack.frames.map Frame.owner :=
      fun other listed => .inl (List.mem_cons_of_mem loan listed)
    unfold Timeline.giveBack
    simp only
    split
    · exact owned.keep (.refl _) fewer
    · split
      · have same : (stack.onFrame loan.owner (·.put loan.id loan.stamped)).outline =
            stack.outline := by
          apply Stack.outline_onFrame
          intro frame
          rfl
        refine owned.keep ?_ fewer
        rw [owners_eq, owners_eq, same]
      · exact owned.keep (.refl _) fewer

end Owners

/-- What is true of every timeline of a thread that has drawn `drawn` tokens. -/
structure Sound (drawn : Nat) (line : Timeline α) : Prop where
  ordered : line.Ordered
  complete : line.isComplete
  owned : line.Owned drawn

theorem sound_start : Sound 0 (start : Timeline α) where
  ordered := ⟨.nil, by simp [marks, start, Stack.marksOf, Stack.empty], .nil, by simp [start],
    by simp [start], by simp [start]⟩
  complete := rfl
  owned := ⟨.nil, by simp [owners, start, Stack.empty], by simp [start]⟩

structure Moves (drawn : Nat) (line : Timeline α) (more : Nat) (later : Timeline α) : Prop where
  advances : ∃ set, line.Advances set later
  since : ∀ owner : Token, owner.value ≤ drawn → later.since owner = line.since owner
  drawn : drawn ≤ more
  sound : later.Sound more

section Steps

variable {line later : Timeline α} {drawn : Nat} {set : Option (Mark α)}

theorem Sound.moves (sound : line.Sound drawn) (advances : line.Advances set later)
    (since : later.since = line.since) (complete : later.isComplete)
    (owned : later.Owned drawn) : line.Moves drawn drawn later where
  advances := ⟨set, advances⟩
  since := fun owner _ => congrFun since owner
  drawn := le_refl drawn
  sound := ⟨sound.ordered.advance advances, complete, owned⟩

theorem Sound.idles (sound : line.Sound drawn) {more : Nat} (le : drawn ≤ more) :
    line.Moves drawn more line where
  advances := ⟨none, .refl line⟩
  since := fun _ _ => rfl
  drawn := le
  sound := ⟨sound.ordered, sound.complete, sound.owned.mono le⟩

theorem Sound.moves_openFor (sound : line.Sound drawn) {owner : Token}
    (fresh : owner.value = drawn + 1) : line.Moves drawn (drawn + 1) (line.openFor owner) := by
  have apart : ∀ other : Token, other.value ≤ drawn → other ≠ owner := by
    rintro other old rfl
    omega
  have owned := sound.owned.openFor fresh
  have complete := isComplete_openFor sound.complete owner
  by_cases alive : line.alive = true
  · have advances := advances_openFor alive
      (fun other listed => apart other (sound.owned.bounded other listed))
      (fun loan listed => apart loan.owner (sound.owned.lenders loan listed))
    refine ⟨⟨_, advances⟩, fun other old => ?_, Nat.le_succ _,
      ⟨sound.ordered.advance advances, complete, owned⟩⟩
    rw [openFor, if_pos alive]
    exact Function.update_of_ne (apart other old) _ _
  · rw [openFor, if_neg alive]
    exact sound.idles (Nat.le_succ drawn)

theorem Sound.moves_record (sound : line.Sound drawn) (id : Nat) (value : α) :
    line.Moves drawn drawn (line.record id value) := by
  refine sound.moves (advances_record id value line) rfl
    (isComplete_record sound.complete id value) ?_
  refine sound.owned.keep ?_ fun loan listed => .inl listed
  rw [owners_record]

theorem Sound.moves_close (sound : line.Sound drawn) (owner : Token) :
    line.Moves drawn drawn (line.close owner) := by
  refine sound.moves (advances_close owner line) rfl (isComplete_close sound.complete owner) ?_
  exact sound.owned.keep (Stack.owners_closeFrames owner line.stack.frames) fun loan listed => .inl listed

theorem Sound.moves_take (sound : line.Sound drawn) (id : Nat) :
    line.Moves drawn drawn (line.take id) := by
  refine sound.moves (advances_take id line) rfl (isComplete_take sound.complete id) ?_
  refine sound.owned.keep ?_ fun loan listed => .inl listed
  rw [← owners_takeFor id line]
  exact .refl _

theorem Sound.moves_lend (sound : line.Sound drawn) {top : Frame (Stamped α)}
    (innermost : line.stack.top? = some top) (id : Nat) :
    line.Moves drawn drawn (line.lend top.owner id) := by
  refine sound.moves (advances_lend innermost sound.owned.nodup) ?_
    (isComplete_lend sound.complete top.owner id) (sound.owned.lend innermost id)
  unfold lend
  split <;> rfl

theorem Sound.moves_giveBack (sound : line.Sound drawn) :
    line.Moves drawn drawn line.giveBack := by
  refine sound.moves (advances_giveBack line) ?_ (isComplete_giveBack sound.complete)
    sound.owned.giveBack
  unfold giveBack
  split
  · rfl
  · split
    · rfl
    · split <;> rfl

theorem Sound.moves_endStorage (sound : line.Sound drawn) :
    line.Moves drawn drawn line.endStorage := by
  refine sound.moves (advances_endStorage line) rfl (isComplete_endStorage sound.complete) ?_
  exact sound.owned.keep (List.nil_sublist _) fun loan listed => .inl listed

end Steps

end FaultRelay.Timeline

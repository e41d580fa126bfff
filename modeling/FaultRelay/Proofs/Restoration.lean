import FaultRelay.Proofs.Coupling
import FaultRelay.Proofs.GuardTarget
import FaultRelay.Proofs.Handling

/-! Every way out of a block restores what was open. A thread owes the frames of the scopes that are
still to be left: without them, what is open is what was open before. The debt is followed through
every step of a program. Leaving a scope pays for it, whether the program returns or unwinds, and
even if the scopes are not left in the order in which they were entered. -/
namespace FaultRelay

variable {V : Vocabulary} {σ α β ρ : Type}

structure Thread.Kept (before after : Thread V) : Prop where
  shape : before.SameShape after
  tallying : after.tallying = before.tallying

/-- What the application does on its own account leaves everything open that was open. -/
structure Tidy (V : Vocabulary) (σ : Type) [Host V σ] : Prop where
  destroy : ∀ kind value (world : World V σ), world.thread.Fresh →
    world.thread.Kept (Host.destroy kind value world).2.thread
  declared : ∀ argument count (world : World V σ), world.thread.Fresh →
    world.thread.Kept (Host.declared argument count world).2.thread
  available : ∀ argument case (world : World V σ), world.thread.Fresh →
    world.thread.Kept (Host.available argument case world).2.thread
  produced : ∀ argument (world : World V σ), world.thread.Fresh →
    world.thread.Kept (Host.produced argument world).2.thread

section Closing

variable {owner : Token}

def Single (owner : Token) (outline : List (Token × Nat)) : Prop :=
  outline.filter (·.1 = owner) = [] ∨ outline.filter (·.1 = owner) = [(owner, 1)]

/-- To close is to strike out. -/
theorem Stack.outline_close_single {α : Type} {stack : Stack α}
    (single : Single owner stack.outline) :
    (stack.close owner).2.outline = stack.outline.filter (·.1 ≠ owner) := by
  rcases single with absent | once
  · have apart : ∀ frame ∈ stack.frames, frame.owner ≠ owner := fun frame listed same =>
      List.filter_eq_nil_iff.1 absent (frame.owner, frame.refs) (List.mem_map_of_mem listed)
        (decide_eq_true same)
    have unmoved : (stack.close owner).2 = stack := by
      rw [close, closeFrames_absent apart]
    rw [unmoved, List.filter_eq_self.2]
    intro entry listed
    obtain ⟨frame, framed, rfl⟩ := List.mem_map.1 listed
    exact decide_eq_true (apart frame framed)
  · obtain ⟨before, after, split, above, below⟩ :
        ∃ before after, stack.outline = before ++ (owner, 1) :: after ∧
          (∀ entry ∈ before, entry.1 ≠ owner) ∧ ∀ entry ∈ after, entry.1 ≠ owner := by
      obtain ⟨before, after, split, above, _, below⟩ := List.filter_eq_cons_iff.1 once
      refine ⟨before, after, split, fun entry listed => ?_, fun entry listed => ?_⟩
      · simpa using above entry listed
      · simpa using List.filter_eq_nil_iff.1 below entry listed
    rw [(outline_close above split).1, split, List.filter_append, List.filter_cons]
    simp only [ne_eq, not_true_eq_false, decide_false, Bool.false_eq_true, if_false]
    rw [List.filter_eq_self.2 fun entry listed => decide_eq_true (above entry listed),
      List.filter_eq_self.2 fun entry listed => decide_eq_true (below entry listed)]

theorem filter_struck (owner other : Token) (outline : List (Token × Nat)) :
    (outline.filter (·.1 ≠ other)).filter (·.1 = owner) =
      if owner = other then [] else outline.filter (·.1 = owner) := by
  rw [List.filter_filter]
  split
  · rename_i same
    subst same
    exact List.filter_eq_nil_iff.2 (by simp)
  · rename_i differ
    refine List.filter_congr fun entry _ => ?_
    by_cases theirs : entry.1 = owner <;> simp [theirs, differ]

theorem filter_owed (owner : Token) (others : List Token) (outline : List (Token × Nat)) :
    outline.filter (·.1 ∉ owner :: others) =
      (outline.filter (·.1 ≠ owner)).filter (·.1 ∉ others) := by
  rw [List.filter_filter]
  refine List.filter_congr fun entry _ => ?_
  by_cases theirs : entry.1 = owner <;> simp [theirs]

theorem single_struck (owner : Token) (outline : List (Token × Nat)) :
    Single owner (outline.filter (·.1 ≠ owner)) := by
  rw [Single, filter_struck, if_pos rfl]
  exact .inl rfl

end Closing

section Leaving

variable [Host V σ] (tidy : Tidy V σ) {world : World V σ}
include tidy

theorem release_kept (key : Key V) (value : key.Value) (fresh : world.thread.Fresh) :
    world.thread.Kept (release key value world).2.thread := by
  cases key with
  | app kind => exact tidy.destroy kind value world fresh
  | tally | thrown => exact ⟨.refl _, rfl⟩

structure Struck (owner : Token) (closed : List (Key V)) (before after : Thread V) : Prop where
  outline : ∀ key, (after.stack key).outline =
    if key ∈ closed then (before.stack key).outline.filter (·.1 ≠ owner)
    else (before.stack key).outline
  drawn : before.lastToken ≤ after.lastToken
  tallying : after.tallying = before.tallying

omit tidy [Host V σ] in
theorem Struck.fresh {owner : Token} {closed : List (Key V)} {before after : Thread V}
    (struck : Struck owner closed before after) (fresh : before.Fresh) : after.Fresh := by
  intro key entry listed n numbered
  rw [struck.outline] at listed
  refine (fresh key entry ?_ n numbered).trans struck.drawn
  split at listed
  · exact (List.mem_filter.1 listed).1
  · exact listed

theorem closeSlot_struck (owner : Token) (key : Key V) (fresh : world.thread.Fresh)
    (single : Single owner (world.thread.stack key).outline) :
    Struck owner [key] world.thread (Scope.closeSlot owner key world).2.thread := by
  let closed : World V σ := { world with
    thread := world.thread.setStack key ((world.thread.stack key).close owner).2 }
  have struck : Struck owner [key] world.thread closed.thread := by
    refine ⟨fun other => ?_, le_refl _, rfl⟩
    by_cases here : other = key
    · subst here
      rw [if_pos List.mem_cons_self, ← Stack.outline_close_single single]
      exact congrArg Stack.outline (Thread.stack_close world.thread owner other)
    · rw [if_neg (by simpa using here)]
      exact congrArg Stack.outline (Thread.stack_setStack_other _ _ here)
  have kept : closed.thread.Kept (Scope.closeSlot owner key world).2.thread := by
    unfold Scope.closeSlot Slot.close
    simp only [bind, StateT.bind, Slot.onStack_apply]
    rcases ((world.thread.stack key).close owner).1 with _ | _ | ⟨id, _ | value⟩ | ⟨id, value⟩ | _
    · exact ⟨.refl _, rfl⟩
    · exact ⟨.refl _, rfl⟩
    · exact ⟨.refl _, rfl⟩
    · exact @release_kept _ _ _ tidy (emit (V := V) (.propagated key.name id) closed).2 key value
        (struck.fresh fresh)
    · exact @release_kept _ _ _ tidy (emit (V := V) (.discarded key.name id) closed).2 key value
        (struck.fresh fresh)
    · exact ⟨.refl _, rfl⟩
  exact ⟨fun other => (kept.shape.outline other).trans (struck.outline other), kept.shape.drawn,
    kept.tallying⟩

theorem closeSlots_struck (owner : Token) {keys : List (Key V)} (once : keys.Nodup)
    (fresh : world.thread.Fresh)
    (single : ∀ key, Single owner (world.thread.stack key).outline) :
    Struck owner keys world.thread (keys.forM (Scope.closeSlot owner) world).2.thread := by
  induction keys generalizing world with
  | nil => exact ⟨fun _ => rfl, le_refl _, rfl⟩
  | cons key rest ih =>
      obtain ⟨apart, once⟩ := List.nodup_cons.1 once
      have first := closeSlot_struck tidy owner key fresh (single key)
      have singles : ∀ other, Single owner
          ((Scope.closeSlot owner key world).2.thread.stack other).outline := by
        intro other
        rw [first.outline]
        split
        · exact single_struck _ _
        · exact single other
      have later := ih once (first.fresh fresh) singles
      refine ⟨fun other => ?_, first.drawn.trans later.drawn, later.tallying.trans first.tallying⟩
      have closed := later.outline other
      rw [first.outline] at closed
      refine Eq.trans closed ?_
      by_cases here : other = key
      · subst here
        simp [apart]
      · simp [here]

theorem leave_struck (active : OpenScope V) (fresh : world.thread.Fresh)
    (single : ∀ key, Single active.token (world.thread.stack key).outline) :
    ∃ closed : Thread V, Struck active.token active.interest.keys world.thread closed ∧
      (active.leave world).2.thread =
        { closed with tallying := closed.tallying - if active.tallies then 1 else 0 } := by
  have once : active.interest.keys.reverse.Nodup := List.nodup_reverse.2 active.interest.nodup_keys
  have struck := closeSlots_struck tidy active.token once fresh single
  refine ⟨_, ⟨fun key => ?_, struck.drawn, struck.tallying⟩, ?_⟩
  · rw [struck.outline]
    simp only [List.mem_reverse]
  · obtain ⟨interest, token, tallies⟩ := active
    cases tallies <;> rfl

end Leaving

/-- With the scopes in `held` still to leave, the thread would have `base` open, and `count` scopes
that want strays counted. -/
structure Thread.Owes (base : Key V → List (Token × Nat)) (count : Nat) (held : List (OpenScope V))
    (thread : Thread V) : Prop where
  outline : ∀ key, (thread.stack key).outline.filter (·.1 ∉ held.map OpenScope.token) = base key
  single : ∀ scope ∈ held, ∀ key, Single scope.token (thread.stack key).outline
  within : ∀ scope ∈ held, ∀ key, key ∉ scope.interest.keys →
    (thread.stack key).outline.filter (·.1 = scope.token) = []
  distinct : (held.map OpenScope.token).Nodup
  drawn : ∀ scope ∈ held, scope.token.Within thread.lastToken
  fresh : thread.Fresh
  tallying : thread.tallying = count + held.countP OpenScope.tallies

namespace Thread.Owes

variable {base : Key V → List (Token × Nat)} {count : Nat} {held : List (OpenScope V)}
  {thread later : Thread V}

theorem kept (owes : thread.Owes base count held) (kept : thread.Kept later) :
    later.Owes base count held where
  outline key := by rw [kept.shape.outline, owes.outline]
  single scope listed key := by rw [kept.shape.outline]; exact owes.single scope listed key
  within scope listed key apart := by
    rw [kept.shape.outline]
    exact owes.within scope listed key apart
  distinct := owes.distinct
  drawn scope listed n numbered := (owes.drawn scope listed n numbered).trans kept.shape.drawn
  fresh := kept.shape.fresh owes.fresh
  tallying := kept.tallying.trans owes.tallying

theorem perm {held' : List (OpenScope V)} (owes : thread.Owes base count held)
    (same : held.Perm held') : thread.Owes base count held' where
  outline key := by
    rw [← owes.outline key]
    exact List.filter_congr fun entry _ => by simp only [(same.map _).mem_iff]
  single scope listed := owes.single scope (same.mem_iff.2 listed)
  within scope listed := owes.within scope (same.mem_iff.2 listed)
  distinct := (same.map _).nodup_iff.1 owes.distinct
  drawn scope listed := owes.drawn scope (same.mem_iff.2 listed)
  fresh := owes.fresh
  tallying := by rw [owes.tallying, same.countP_eq]

theorem start (fresh : thread.Fresh) :
    thread.Owes (fun key => (thread.stack key).outline) thread.tallying [] where
  outline key := List.filter_eq_self.2 (by simp)
  single _ listed := by cases listed
  within _ listed := by cases listed
  distinct := .nil
  drawn _ listed := by cases listed
  fresh := fresh
  tallying := rfl

theorem settled (owes : thread.Owes base count []) :
    (∀ key, (thread.stack key).outline = base key) ∧ thread.tallying = count := by
  refine ⟨fun key => ?_, owes.tallying⟩
  rw [← owes.outline key]
  exact (List.filter_eq_self.2 (by simp)).symm

/-- Nothing but the frames of the thread counts. -/
theorem congr (owes : thread.Owes base count held) (store : later.store = thread.store)
    (drawn : later.lastToken = thread.lastToken) (tallying : later.tallying = thread.tallying) :
    later.Owes base count held := by
  have same : ∀ key, later.stack key = thread.stack key := fun key => by
    rw [Thread.stack, Thread.stack, store]
  exact owes.kept ⟨⟨fun key => by rw [same], drawn.ge⟩, tallying⟩

section Scopes

variable [Host V σ] {world : World V σ}

/-- To strike out the frames of a scope that was just entered is to undo this. -/
theorem enter_struck (scope : Scope V) (fresh : world.thread.Fresh) (key : Key V) :
    let token := (scope.enter world).1.token
    let entered := ((scope.enter world).2.thread.stack key).outline
    entered.filter (·.1 ≠ token) = (world.thread.stack key).outline ∧ Single token entered ∧
      (key ∉ scope.interest.keys → entered.filter (·.1 = token) = []) := by
  intro token entered
  have numbered : token = .numbered (world.thread.lastToken + 1) := by
    change (scope.enter world).1.token = _
    rw [enter_apply]
  have apart : ∀ entry ∈ (world.thread.stack key).outline, entry.1 ≠ token := fun entry listed same =>
    have bound := fresh key entry listed _ (same.trans numbered)
    absurd bound (by omega)
  have kept : (world.thread.stack key).outline.filter (·.1 ≠ token) =
      (world.thread.stack key).outline :=
    List.filter_eq_self.2 fun entry listed => by simpa using apart entry listed
  have absent : (world.thread.stack key).outline.filter (·.1 = token) = [] :=
    List.filter_eq_nil_iff.2 fun entry listed => by simpa using apart entry listed
  have opened : entered = (world.thread.stack key).outline ∨
      key ∈ scope.interest.keys ∧ entered = (token, 1) :: (world.thread.stack key).outline := by
    by_cases gone : world.thread.store = none
    · refine .inl ?_
      change ((scope.enter world).2.thread.stack key).outline = _
      rw [Thread.stack_gone gone, Thread.stack_gone ((enter_gone scope world).2 gone)]
    · change ((scope.enter world).2.thread.stack key).outline = _ ∨ _ ∧
        ((scope.enter world).2.thread.stack key).outline = _
      rw [outline_enter scope fresh gone, numbered]
      split
      · rename_i listed
        exact .inr ⟨listed, rfl⟩
      · exact .inl rfl
  rcases opened with same | ⟨inside, added⟩
  · rw [same]
    exact ⟨kept, .inl absent, fun _ => absent⟩
  · rw [added, Single, List.filter_cons, if_neg (by simp), List.filter_cons, if_pos (by simp),
      absent]
    exact ⟨kept, .inr rfl, fun beyond => absurd inside beyond⟩

theorem enter (owes : world.thread.Owes base count held) (scope : Scope V) :
    (scope.enter world).2.thread.Owes base count ((scope.enter world).1 :: held) := by
  have active : (scope.enter world).1 = ⟨scope.interest,
      .numbered (world.thread.lastToken + 1), scope.interest.tallies⟩ := by rw [enter_apply]
  have others : ∀ other ∈ held, other.token ≠ (scope.enter world).1.token := fun other listed same =>
    have bound := owes.drawn other listed _ (same.trans (congrArg OpenScope.token active))
    absurd bound (by omega)
  have struck := enter_struck scope owes.fresh
  have theirs : ∀ other ∈ held, ∀ key,
      ((scope.enter world).2.thread.stack key).outline.filter (·.1 = other.token) =
        (world.thread.stack key).outline.filter (·.1 = other.token) := fun other listed key => by
    rw [← (struck key).1, filter_struck, if_neg (others other listed)]
  refine ⟨fun key => ?_, ?_, ?_, ?_, ?_, fresh_enter scope owes.fresh, ?_⟩
  · rw [List.map_cons, filter_owed, (struck key).1]
    exact owes.outline key
  · refine List.forall_mem_cons.2 ⟨fun key => (struck key).2.1, fun other listed key => ?_⟩
    rw [Single, theirs other listed]
    exact owes.single other listed key
  · refine List.forall_mem_cons.2 ⟨fun key beyond => ?_, fun other listed key beyond => ?_⟩
    · exact (struck key).2.2 (by rwa [active] at beyond)
    · rw [theirs other listed]
      exact owes.within other listed key beyond
  · rw [List.map_cons, List.nodup_cons]
    refine ⟨fun listed => ?_, owes.distinct⟩
    obtain ⟨other, inside, same⟩ := List.mem_map.1 listed
    exact others other inside same
  · rw [enter_lastToken]
    refine List.forall_mem_cons.2 ⟨fun n numbered => ?_, fun other listed n numbered => ?_⟩
    · rw [active] at numbered
      cases numbered
      exact le_refl _
    · exact (owes.drawn other listed n numbered).trans (Nat.le_succ _)
  · rw [enter_thread, List.countP_cons, active]
    change world.thread.tallying + _ = _
    rw [owes.tallying, Nat.add_assoc]

theorem leave (tidy : Tidy V σ) {active : OpenScope V}
    (owes : world.thread.Owes base count (active :: held)) :
    (active.leave world).2.thread.Owes base count held := by
  obtain ⟨closed, struck, left⟩ :=
    leave_struck tidy active owes.fresh (owes.single active List.mem_cons_self)
  have frames : ∀ key, (active.leave world).2.thread.stack key = closed.stack key := fun key => by
    rw [left]
    rfl
  have outlines : ∀ key, ((active.leave world).2.thread.stack key).outline =
      (world.thread.stack key).outline.filter (·.1 ≠ active.token) := by
    intro key
    rw [frames, struck.outline]
    split
    · rfl
    · rename_i beyond
      refine (List.filter_eq_self.2 fun entry listed => ?_).symm
      have absent := owes.within active List.mem_cons_self key beyond
      simpa using List.filter_eq_nil_iff.1 absent entry listed
  have others : ∀ scope ∈ held, scope.token ≠ active.token := fun scope listed same =>
    (List.nodup_cons.1 owes.distinct).1 (same ▸ List.mem_map_of_mem listed)
  have theirs : ∀ scope ∈ held, ∀ key,
      ((active.leave world).2.thread.stack key).outline.filter (·.1 = scope.token) =
        (world.thread.stack key).outline.filter (·.1 = scope.token) := fun scope listed key => by
    rw [outlines, filter_struck, if_neg (others scope listed)]
  refine ⟨fun key => ?_, fun scope listed key => ?_, fun scope listed key beyond => ?_,
    (List.nodup_cons.1 owes.distinct).2, fun scope listed n numbered => ?_, ?_, ?_⟩
  · rw [outlines, ← filter_owed]
    exact owes.outline key
  · rw [Single, theirs scope listed]
    exact owes.single scope (List.mem_cons_of_mem _ listed) key
  · rw [theirs scope listed]
    exact owes.within scope (List.mem_cons_of_mem _ listed) key beyond
  · rw [left]
    exact (owes.drawn scope (List.mem_cons_of_mem _ listed) n numbered).trans struck.drawn
  · intro key entry listed n numbered
    rw [frames] at listed
    rw [left]
    exact struck.fresh owes.fresh key entry listed n numbered
  · rw [left]
    change closed.tallying - _ = _
    rw [struck.tallying, owes.tallying, List.countP_cons]
    omega

end Scopes

end Thread.Owes

section Steps

variable [Host V σ] (tidy : Tidy V σ) {world : World V σ}
include tidy

theorem restore_kept (key : Key V) (owner : Token) (id : Nat) (value : key.Value)
    (fresh : world.thread.Fresh) :
    world.thread.Kept (Slot.restore key owner id value world).2.thread := by
  unfold Slot.restore
  have read : Slot.stack key world = (world.thread.stack key, world) := rfl
  simp only [bind, StateT.bind, read]
  rcases (world.thread.stack key).frameOf? owner with _ | ⟨_, _, _ | held⟩
  · exact release_kept tidy key value fresh
  · refine ⟨.setStack world.thread (Stack.outline_onFrame owner (fun frame => ?_) _), rfl⟩
    rfl
  · exact release_kept tidy key value fresh

theorem Primitive.kept {range : Range V σ} {act : Quiet V σ α} (primitive : Primitive range act)
    (fresh : world.thread.Fresh) : world.thread.Kept (act world).2.thread := by
  cases primitive with
  | own | emit | current | unwinding => exact ⟨.refl _, rfl⟩
  | touch _ answer change =>
      refine ⟨.setStack world.thread (Stack.outline_onTop (fun frame => ?_) _), rfl⟩
      rfl
  | mint =>
      have same := FailureId.upcoming_thread world
      rw [FailureId.mint_apply, same]
      exact ⟨⟨fun _ => rfl, le_refl _⟩, rfl⟩
  | reserve =>
      have same := FailureId.upcoming_thread world
      rw [FailureId.reserve_apply, same]
      exact ⟨⟨fun _ => rfl, le_refl _⟩, rfl⟩
  | tallying =>
      rw [tallying_apply]
      exact ⟨.refl _, rfl⟩
  | inForce =>
      obtain ⟨⟨drawn, settings, environment⟩, thread, host⟩ := world
      cases settings <;> exact ⟨.refl _, rfl⟩
  | adopt _ settings =>
      obtain ⟨⟨drawn, decided, environment⟩, thread, host⟩ := world
      cases decided <;> exact ⟨.refl _, rfl⟩
  | destroy kind value => exact tidy.destroy kind value world fresh
  | declared argument count => exact tidy.declared argument count world fresh
  | available argument case => exact tidy.available argument case world fresh
  | produced argument => exact tidy.produced argument world fresh

/-- Every step keeps the account of what is owed. -/
def Tidy.account (range : Range V σ) : Invariant range ((Key V → List (Token × Nat)) × Nat) where
  Holds i held world := world.thread.Owes i.1 i.2 held
  step primitive := fun owes => Thread.Owes.kept owes (primitive.kept tidy owes.fresh)
  perm same owes := owes.perm same
  unwound owes := owes.congr rfl rfl rfl
  stopped owes := owes.congr rfl rfl rfl
  enter scope owes := owes.enter scope
  leave _ owes := owes.leave tidy
  restore _ owes owner id value := owes.kept (restore_kept tidy _ owner id value owes.fresh)
  thread owes := ⟨⟨fun _ => [], 0⟩, .start Thread.fresh_fresh, fun _ => ⟨owes, owes⟩⟩

theorem Program.owes_nothing {range : Range V σ} {act : Act V σ α}
    (program : Program range [] act fun _ => []) (fresh : world.thread.Fresh)
    (ended : (act world).1 ≠ .error .aborted) :
    (act world).2.thread.Owes (fun key => (world.thread.stack key).outline)
      world.thread.tallying [] := by
  let account := tidy.account range
  let opened := fun key => (world.thread.stack key).outline
  have start : account.Holds (opened, world.thread.tallying) ([] ++ []) world := .start fresh
  rcases result : (act world).1 with (object | _) | value
  · exact program.keeps_unwinding account start result
  · exact absurd result ended
  · exact program.keeps_returning account start result

end Steps

/-- A block that handles failures, or one that packs them. -/
inductive Enclosed [Host V σ] (range : Range V σ) : {α : Type} → Act V σ α → Prop
  | handling {ρ : Type} {block : Handling V σ ρ} (within : block.Within range) :
      Enclosed range block.run
  | packing {α : Type} {keys : List (Key V)} (within : ∀ key ∈ keys, range.slot key)
      {body : Act V σ (Except FailureId α)} (runs : Program range [] body fun _ => []) :
      Enclosed range (Parcel.pack keys body)

section Blocks

variable [Host V σ] {range : Range V σ} {act : Act V σ α}

theorem Enclosed.program (block : Enclosed range act) (tallies : range.slot .tally)
    (thrown : range.slot .thrown) : Program range [] act fun _ => [] := by
  cases block with
  | handling within => exact Handling.program within tallies thrown
  | packing within runs => exact .pack within runs

/-- However a block is left, the frames that are open then are those that were open before, each
with its owner and as often opened, and the same number of scopes wants strays counted. -/
theorem every_exit_restores_what_was_open (tidy : Tidy V σ) (block : Enclosed .all act)
    {world : World V σ} (fresh : world.thread.Fresh) (ended : (act world).1 ≠ .error .aborted) :
    (∀ key, ((act world).2.thread.stack key).outline = (world.thread.stack key).outline) ∧
      (act world).2.thread.tallying = world.thread.tallying :=
  ((block.program trivial trivial).owes_nothing tidy fresh ended).settled

theorem Program.around {κ : Key V → Type} {run : (key : Key V) → κ key → Act V σ key.Value}
    {context : Context V κ} {held : List (OpenScope V)} (tallies : range.slot .tally)
    (asks : range.asks) (within : ∀ key ∈ context.keys, range.slot key)
    (runs : ∀ key code, Program range [] (run key code) fun _ => [])
    (inner : Program range held act fun _ => []) :
    Program range held (Guard.around run context act) fun _ => [] := by
  refine .follow (.quiet (.arm asks context)) fun guard armed => ?_
  have same : guard.context = context := by
    obtain ⟨world, armed⟩ := armed
    cases armed
    rfl
  have dropped : Program range [] (guard.drop run) fun _ => [] :=
    .drop tallies asks (same ▸ within) runs
  exact .perm (.ensuring inner dropped) (by rw [List.append_nil]) fun _ => .refl _

end Blocks

namespace Scenario

theorem diary_tidy : Tidy application Diary where
  destroy _ _ _ _ := ⟨.refl _, rfl⟩
  declared _ _ _ _ := ⟨.refl _, rfl⟩
  available _ _ _ _ := ⟨.refl _, rfl⟩
  produced _ _ _ := ⟨.refl _, rfl⟩

def watchful : Scope application := ⟨.ofList [.of (Topic.ofKind .echo), .counting]⟩

/-- A failure that unwinds through a guard and a scope. -/
def storm : Act application Diary (Except FailureId Bool) :=
  watchful.during fun _ => .ok <$> under (raise [payload .code 3])

theorem raising (payloads : List (Payload application)) :
    Program .all [] (raise payloads : Act application Diary Bool) fun _ => [] :=
  .bind (.quiet (.newFailure trivial fun _ _ => trivial)) fun id => .raise id

theorem storm_program : Program .all [] storm fun _ => [] :=
  .during _ fun _ => .map _ <| .around trivial trivial (fun _ _ => trivial)
    (fun _ value => .just value) (raising _)

theorem attentive_within {range : Range application Diary} (code : range.slot (Topic.ofKind .code)) :
    attentive.chain.Within range := by
  have answers : ∀ (arguments : List (Argument application)) (answer : Bool),
      (∀ argument ∈ arguments, argument = .take (Topic.ofKind .code)) →
        Handler.Within range attentive.chain.interest
          (⟨arguments, [], fun _ => pure answer⟩ : Handler application Diary Bool) := by
    refine fun arguments answer takes => ⟨fun argument listed key among => ?_, fun _ => ?_,
      fun _ _ asked => (by cases asked), fun _ => .just answer⟩
    · rw [takes argument listed] at among
      exact List.mem_singleton.1 among ▸ code
    · exact fun asked => by cases asked
  exact List.forall_mem_cons.2 ⟨answers _ true (by simp),
    List.forall_mem_singleton.2 (answers [] false (by simp))⟩

/-- The storm passes a handling block in a scope, where everything stays as it was. -/
theorem storm_passes :
    let start := (outerScope.enter morning).2
    (handleAll storm attentive start).1 = .error (.unwinding (.unwound (.numbered 1))) ∧
      (∀ key, ((handleAll storm attentive start).2.thread.stack key).outline =
        (start.thread.stack key).outline) ∧
      (handleAll storm attentive start).2.thread.tallying = start.thread.tallying := by
  intro start
  have unwinds : (handleAll storm attentive start).1 =
      .error (.unwinding (.unwound (.numbered 1))) := rfl
  have block : Enclosed .all (handleAll storm attentive) :=
    @Enclosed.handling _ _ _ _ _ (.all storm attentive) ⟨storm_program, attentive_within trivial⟩
  exact ⟨unwinds, every_exit_restores_what_was_open diary_tidy block
    (fresh_enter outerScope Thread.fresh_fresh) (by rw [unwinds]; simp)⟩

end Scenario

end FaultRelay

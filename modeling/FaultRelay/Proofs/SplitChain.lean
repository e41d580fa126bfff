import FaultRelay.Proofs.Balance
import FaultRelay.Proofs.Clause
import FaultRelay.Proofs.Oblivious

/-! A chain of handlers may be split over two nested blocks. The two runs are linked: the body stands
on the frames of the inner block in one and on those of the only block in the other, and cannot tell.
What the inner block could not use reaches the outer one through the frames it leaves. -/
namespace FaultRelay

variable {V : Vocabulary} {σ ρ α : Type}

/-- Where a body stands that runs inside two blocks, and where it stands inside one block that opens
the slots of both. -/
def Thread.floors (thread : Thread V) (inner outer : List (Key V)) (key : Key V) :
    Option (Floor key.Value × Floor key.Value) :=
  let first := Token.numbered (thread.lastToken + 1)
  let second := Token.numbered (thread.lastToken + 2)
  let frames := (thread.stack key).frames
  if thread.store.isNone then none
  else if inner.contains key then
    some (⟨second, if outer.contains key then .fresh first :: frames else frames⟩, ⟨first, frames⟩)
  else if outer.contains key then some (⟨first, frames⟩, ⟨first, frames⟩)
  else none

theorem Thread.Fresh.floor {thread : Thread V} (fresh : thread.Fresh) {key : Key V} {drawn n : Nat}
    (above : thread.lastToken < n) (recent : n ≤ drawn) :
    (⟨.numbered n, (thread.stack key).frames⟩ : Floor key.Value).Sound drawn where
  within m same := by cases same; exact recent
  below frame listed := by
    have within := fresh.within frame listed
    refine ⟨fun m same => ?_, fun same => ?_⟩
    · have bound := within m same
      omega
    · have bound := within n same
      omega

def splitLink (thread : Thread V) (fresh : thread.Fresh) (inner outer : List (Key V)) : Link V where
  left := thread.lastToken + 2
  right := thread.lastToken + 1
  floor := thread.floors inner outer
  sound {key floors} laid := by
    have low : ∀ {drawn : Nat}, thread.lastToken + 1 ≤ drawn →
        (⟨.numbered (thread.lastToken + 1), (thread.stack key).frames⟩ : Floor key.Value).Sound
          drawn := fun recent => fresh.floor (Nat.lt_succ_self _) recent
    have high : (⟨.numbered (thread.lastToken + 2), (thread.stack key).frames⟩ :
        Floor key.Value).Sound (thread.lastToken + 2) := fresh.floor (by omega) (le_refl _)
    unfold Thread.floors at laid
    split at laid
    · cases laid
    · split at laid
      · cases laid
        refine ⟨?_, low (le_refl _)⟩
        split
        · refine ⟨high.within, List.forall_mem_cons.2 ⟨⟨fun m same => ?_, ?_⟩, high.below⟩⟩
          · cases same
            omega
          · simp [Frame.fresh]
        · exact high
      · split at laid
        · cases laid
          exact ⟨low (by omega), low (le_refl _)⟩
        · cases laid

section Floors

variable {thread : Thread V} (fresh : thread.Fresh) {inner outer : List (Key V)} {key : Key V}

theorem floor_inner (stored : thread.store.isNone = false) (within : key ∈ inner)
    (outer : List (Key V)) :
    (splitLink thread fresh inner outer).floor key =
      some (⟨.numbered (thread.lastToken + 2),
          if key ∈ outer then .fresh (.numbered (thread.lastToken + 1)) :: (thread.stack key).frames
          else (thread.stack key).frames⟩,
        ⟨.numbered (thread.lastToken + 1), (thread.stack key).frames⟩) := by
  simp [splitLink, Thread.floors, stored, within]

theorem floor_outer (stored : thread.store.isNone = false) (beyond : key ∉ inner)
    (around : key ∈ outer) :
    (splitLink thread fresh inner outer).floor key =
      some (⟨.numbered (thread.lastToken + 1), (thread.stack key).frames⟩,
        ⟨.numbered (thread.lastToken + 1), (thread.stack key).frames⟩) := by
  simp [splitLink, Thread.floors, stored, beyond, around]

theorem floor_none (beyond : key ∉ inner) (absent : key ∉ outer) :
    (splitLink thread fresh inner outer).floor key = none := by
  simp [splitLink, Thread.floors, beyond, absent]

end Floors

theorem Link.Paired.refl {link : Link V} {key : Key V} (bare : link.floor key = none)
    {frames : List (Frame key.Value)}
    (within : ∀ frame ∈ frames, frame.owner.Within link.left ∧ frame.owner.Within link.right) :
    link.Paired key frames frames := by
  induction frames with
  | nil => exact .bottom bare
  | cons frame below ih =>
      obtain ⟨own, others⟩ := List.forall_mem_cons.1 within
      exact .frame (.shared bare own.1 own.2) frame.refs frame.held (ih others)

theorem Link.Paired.on_floor {link : Link V} {key : Key V} {floors}
    (laid : link.floor key = some floors) {frames frames' : List (Frame key.Value)} {refs : Nat}
    (paired : link.Paired key frames frames')
    (outline : Stack.outlineOf frames =
      (floors.1.owner, refs) :: Stack.outlineOf floors.1.below) :
    ∃ held, frames = ⟨floors.1.owner, refs, held⟩ :: floors.1.below ∧
      frames' = ⟨floors.2.owner, refs, held⟩ :: floors.2.below := by
  have deep : ∀ {frames frames' : List (Frame key.Value)}, link.Paired key frames frames' →
      floors.1.below.length + 1 ≤ frames.length := by
    intro frames frames' paired
    induction paired with
    | bottom bare =>
        rw [laid] at bare
        cases bare
    | floor again =>
        rw [laid] at again
        cases again
        exact le_refl _
    | frame _ _ _ _ ih => exact ih.trans (Nat.le_succ _)
  cases paired with
  | bottom bare =>
      rw [laid] at bare
      cases bare
  | floor again counted held =>
      rw [laid] at again
      cases again
      obtain ⟨entry, _⟩ := List.cons.inj outline
      obtain rfl : counted = refs := congrArg Prod.snd entry
      exact ⟨held, rfl, rfl⟩
  | frame _ _ _ rest =>
      have long := deep rest
      have short := congrArg List.length outline
      simp only [Stack.outlineOf, List.map_cons, List.length_cons, List.length_map] at short
      omega

section Splitting

variable [Discreet V σ]

/-- A body cannot tell whether it was started inside two blocks or inside one. -/
theorem split_alike (inner outer both : Scope V) (world : World V σ) (fresh : world.thread.Fresh)
    (silent : inner.interest.tallies = false ∧ outer.interest.tallies = false ∧
      both.interest.tallies = false)
    (joined : ∀ key, key ∈ both.interest.keys ↔
      key ∈ inner.interest.keys ∨ key ∈ outer.interest.keys) :
    (splitLink world.thread fresh inner.interest.keys outer.interest.keys).Alike
      (inner.enter (outer.enter world).2).2 (both.enter world).2 where
  process := by rw [enter_process, enter_process, enter_process]
  tokens := ⟨0, by rw [enter_lastToken, enter_lastToken]; rfl, by rw [enter_lastToken]; rfl⟩
  tallying := by rw [enter_tallying silent.1, enter_tallying silent.2.1, enter_tallying silent.2.2]
  current := by rw [enter_current, enter_current, enter_current]
  reserved := by rw [enter_reserved, enter_reserved, enter_reserved]
  unwindings := by rw [enter_unwindings, enter_unwindings, enter_unwindings]
  gone := by rw [enter_gone, enter_gone, enter_gone]
  host := Discreet.same.trans (Discreet.same.trans (enter_host _ _) (enter_host _ _))
    (Discreet.same.symm (enter_host _ _))
  frames key := by
    -- without storage nothing opens; with it the type is inside, around, or in neither block
    by_cases gone : world.thread.store = none
    · have bare : (splitLink world.thread fresh inner.interest.keys
          outer.interest.keys).floor key = none := by simp [splitLink, Thread.floors, gone]
      rw [Thread.stack_gone ((enter_gone inner _).2 ((enter_gone outer world).2 gone)),
        Thread.stack_gone ((enter_gone both world).2 gone)]
      exact .bottom bare
    · have alive : (outer.enter world).2.thread.store ≠ none := fun later =>
        gone ((enter_gone outer world).1 later)
      rw [frames_enter inner (fresh_enter outer fresh) alive, frames_enter outer fresh gone,
        frames_enter both fresh gone, enter_lastToken]
      have stored : world.thread.store.isNone = false :=
        Option.isNone_eq_false_iff.2 (Option.isSome_iff_ne_none.2 gone)
      by_cases within : key ∈ inner.interest.keys
      · have laid := floor_inner fresh stored within outer.interest.keys
        rw [if_pos within, if_pos ((joined key).2 (.inl within))]
        exact .floor laid 1 none
      · by_cases around : key ∈ outer.interest.keys
        · have laid := floor_outer fresh stored within around
          rw [if_neg within, if_pos around, if_pos ((joined key).2 (.inr around))]
          exact .floor laid 1 none
        · have bare := floor_none fresh within around
          have absent : key ∉ both.interest.keys := fun listed =>
            ((joined key).1 listed).elim within around
          rw [if_neg within, if_neg around, if_neg absent]
          refine .refl bare fun frame listed => ⟨fun n same => ?_, fun n same => ?_⟩ <;>
            exact (fresh.within frame listed n same).trans (Nat.le_add_right _ _)

/-- What the inner block could not use is where the outer one looks for it. -/
theorem valueFor_leave {inner outer : Scope V} {world : World V σ} (fresh : world.thread.Fresh)
    {later later' : World V σ}
    (alike : (splitLink world.thread fresh inner.interest.keys outer.interest.keys).Alike
      later later')
    (shape : (inner.enter (outer.enter world).2).2.thread.SameShape later.thread) {key : Key V}
    (around : key ∈ outer.interest.keys) (id : Nat) :
    (((inner.enter (outer.enter world).2).1.leave later).2.thread.stack key).valueFor id =
      (later.thread.stack key).valueFor id := by
  have active : (inner.enter (outer.enter world).2).1 =
      ⟨inner.interest, .numbered (world.thread.lastToken + 2), inner.interest.tallies⟩ := by
    rw [enter_apply, enter_lastToken]
  rw [active, stack_leave]
  split
  · rename_i within
    have outline := shape.outline key
    by_cases gone : world.thread.store = none
    · rw [Thread.stack_gone ((enter_gone inner _).2 ((enter_gone outer world).2 gone)),
        Stack.outline_empty_iff] at outline
      rw [outline]
      rfl
    · have alive : (outer.enter world).2.thread.store ≠ none := fun later =>
        gone ((enter_gone outer world).1 later)
      have stored : world.thread.store.isNone = false :=
        Option.isNone_eq_false_iff.2 (Option.isSome_iff_ne_none.2 gone)
      have laid := floor_inner fresh stored within outer.interest.keys
      rw [Stack.outline, Stack.outline, frames_enter inner (fresh_enter outer fresh) alive,
        frames_enter outer fresh gone, enter_lastToken, if_pos within] at outline
      obtain ⟨held, frames, -⟩ := (alike.frames key).on_floor laid outline
      rw [if_pos around] at frames
      rw [show later.thread.stack key = ⟨_⟩ from congrArg Stack.mk frames]
      rcases held with _ | ⟨tag, value⟩ <;>
        simp [Stack.close, Stack.closeFrames, Stack.handDown, Stack.valueFor, Stack.top?,
          Frame.valueFor, Frame.holds, Frame.id, Frame.value?, Frame.put, Frame.fresh]
  · rfl

end Splitting

section Blocks

variable [Host V σ] {body : Act V σ (Except FailureId α)} {scope : Scope V} {world : World V σ}
  {exit : Exit V} {value : α} {id : FailureId}

section Total

variable {total : TotalChain V σ α} (opens : Scope.forHandlers total.chain.handlers = scope)
include opens

theorem handleAll_passed (left : (body (scope.enter world).2).1 = .error exit) :
    (handleAll body total world).1 = .error exit := by
  unfold handleAll
  rw [during_result, opens, bind_error left]

theorem handleAll_returned (returned : (body (scope.enter world).2).1 = .ok (.ok value)) :
    (handleAll body total world).1 = .ok value := by
  unfold handleAll
  rw [during_result, opens, bind_ok returned]
  rfl

theorem handleAll_handled {later : World V σ}
    (failed : body (scope.enter world).2 = (.ok (.error id), later))
    (handled : (total.chain.dispatch id later).1 = .ok (.handled value)) :
    (handleAll body total world).1 = .ok value := by
  have dispatched : (total.dispatch id later).1 = .ok value := by
    unfold TotalChain.dispatch
    rw [bind_ok handled]
    rfl
  unfold handleAll
  rw [during_result, opens, bind_ok (by rw [failed]), failed]
  exact dispatched

end Total

section Partial

variable {chain : Chain V σ (Except FailureId α)}
  (opens : Scope.forHandlers chain.handlers = scope)
include opens

theorem handleSome_passed (left : (body (scope.enter world).2).1 = .error exit) :
    (handleSome body chain world).1 = .error exit := by
  unfold handleSome
  rw [during_result, opens, bind_error left]

theorem handleSome_returned (returned : (body (scope.enter world).2).1 = .ok (.ok value)) :
    (handleSome body chain world).1 = .ok (.ok value) := by
  unfold handleSome
  rw [during_result, opens, bind_ok returned]
  rfl

theorem handleSome_handled {result : Except FailureId α} {later : World V σ}
    (failed : body (scope.enter world).2 = (.ok (.error id), later))
    (handled : (chain.dispatch id later).1 = .ok (.handled result)) :
    (handleSome body chain world).1 = .ok result := by
  unfold handleSome
  rw [during_result, opens, bind_ok (by rw [failed]), failed]
  dsimp only
  rw [bind_ok handled]
  rfl

theorem handleSome_unmatched {later : World V σ}
    (failed : body (scope.enter world).2 = (.ok (.error id), later))
    (unmatched : (chain.dispatch id later).1 = .ok (.unmatched id)) :
    handleSome body chain world = (.ok (.error id),
      ((scope.enter world).1.leave (chain.dispatch id later).2).2) := by
  unfold handleSome
  rw [during_apply, opens, bind_ok (by rw [failed]), failed]
  dsimp only
  rw [bind_ok unmatched]
  rfl

end Partial

end Blocks

inductive Ending (V : Vocabulary) (α : Type) where
  | returned (value : α)
  /-- The handler with this number has answered. -/
  | selected (index : Nat) (readings : List (Reading V))
  | left (exit : Exit V)

namespace Ending

def Fits : Ending V α → Except (Exit V) (Except FailureId α) → Prop
  | returned value, ended => ended = .ok (.ok value)
  | selected _ _, ended => ∃ id, ended = .ok (.error id)
  | left exit, ended => ended = .error exit

def result (answers : Nat → List (Reading V) → α) : Ending V α → Except (Exit V) α
  | returned value => .ok value
  | selected index readings => .ok (answers index readings)
  | left exit => .error exit

end Ending

/-- A failure of the body is answered in the nested blocks by whom the whole chain selects: by the
inner block if that is one of the first handlers, else by the outer one. -/
theorem nested_answers [Discreet V σ] {body : Act V σ (Except FailureId α)}
    {first second : List (Clause V σ)} {last : Clause V σ} (always : last.acceptsAll = true)
    {world later later' : World V σ} {id : FailureId} {answers : Nat → List (Reading V) → α}
    {chosen : Nat × List (Reading V)} (fresh : world.thread.Fresh)
    (after : (splitLink world.thread fresh (Clause.scope first).interest.keys
      (Clause.scope (second ++ [last])).interest.keys).Alike later later')
    (shape : ((Clause.scope first).enter
      ((Clause.scope (second ++ [last])).enter world).2).2.thread.SameShape later.thread)
    (ended : body ((Clause.scope first).enter ((Clause.scope (second ++ [last])).enter world).2).2 =
      (.ok (.error id), later))
    (found : Clause.select? id later'.thread 0 (first ++ second ++ [last]) = some chosen) :
    (handleAll (handleSome body (Clause.chain (fun index readings =>
        .ok (answers index readings)) first))
      (Clause.total answers first.length second last always) world).1 =
        .ok (answers chosen.1 chosen.2) := by
  let within : Nat → List (Reading V) → Except FailureId α :=
    fun index readings => .ok (answers index readings)
  have agree : Clause.select? id later.thread 0 first = Clause.select? id later'.thread 0 first :=
    Clause.select?_congr (fun key _ => after.valueFor key id.raw) 0
  have dispatched : ((Clause.chain within first).dispatch id later).1 = _ ∧ _ :=
    Clause.dispatch_chain id later
  rw [List.append_assoc, Clause.select?_append, ← agree, Nat.zero_add] at found
  rcases selected : Clause.select? id later.thread 0 first with _ | early
  · rw [selected, Option.none_or] at found
    have unmatched := handleSome_unmatched Clause.scope_chain ended
      (dispatched.1.trans (by rw [selected]))
    have outside : Clause.select? id ((((Clause.scope first).enter
        ((Clause.scope (second ++ [last])).enter world).2).1.leave
          ((Clause.chain within first).dispatch id later).2).2.thread) first.length
        (second ++ [last]) = some chosen := by
      refine (Clause.select?_congr (fun key listed => ?_) _).trans found
      rw [stack_leave, dispatched.2 selected, ← stack_leave,
        valueFor_leave fresh after shape listed, after.valueFor]
    exact handleAll_handled (Clause.scope_total always _) unmatched
      (Clause.dispatch_total always outside)
  · rw [selected, Option.some_or] at found
    obtain rfl : early = chosen := Option.some.inj found
    exact handleAll_returned (Clause.scope_total always _) (handleSome_handled
      Clause.scope_chain ended (dispatched.1.trans (by rw [selected])))

/-- A chain split over two nested blocks selects as the whole chain in one block does: the same
handler, for the same readings, with the same result. -/
theorem split_chain_selects_alike [Discreet V σ] {body : Act V σ (Except FailureId α)}
    (oblivious : Oblivious body) (level : body.Level) (first second : List (Clause V σ))
    {last : Clause V σ} (always : last.acceptsAll = true) {world : World V σ}
    (fresh : world.thread.Fresh) :
    ∃ ending : Ending V α,
      ending.Fits (body ((Clause.scope first).enter
        ((Clause.scope (second ++ [last])).enter world).2).2).1 ∧
      ending.Fits (body ((Clause.scope (first ++ second ++ [last])).enter world).2).1 ∧
      ∀ answers : Nat → List (Reading V) → α,
        (handleAll (handleSome body (Clause.chain (fun index readings =>
            .ok (answers index readings)) first))
          (Clause.total answers first.length second last always) world).1 =
            ending.result answers ∧
        (handleAll body (Clause.total answers 0 (first ++ second) last always) world).1 =
          ending.result answers := by
  let inner := Clause.scope first
  let outer := Clause.scope (second ++ [last])
  let both := Clause.scope (first ++ second ++ [last])
  have alike : (splitLink world.thread fresh inner.interest.keys outer.interest.keys).Alike
      (inner.enter (outer.enter world).2).2 (both.enter world).2 := by
    refine split_alike inner outer both world fresh ⟨Clause.tallies_scope _,
      Clause.tallies_scope _, Clause.tallies_scope _⟩ fun key => ?_
    simp only [both, List.append_assoc]
    exact Clause.mem_scope_append
  obtain ⟨same, after⟩ := oblivious _ _ _ alike
  rcases ended : body (inner.enter (outer.enter world).2).2 with ⟨result, later⟩
  rcases ended' : body (both.enter world).2 with ⟨result', later'⟩
  rw [ended, ended'] at same after
  obtain rfl : result = result' := same
  -- the body ends alike in both, and only a failure comes to the handlers
  rcases result with exit | id | value
  · refine ⟨.left exit, rfl, rfl, fun answers => ⟨?_, ?_⟩⟩
    · exact handleAll_passed (Clause.scope_total always _)
        (handleSome_passed Clause.scope_chain (congrArg Prod.fst ended))
    · exact handleAll_passed (Clause.scope_total always _) (congrArg Prod.fst ended')
  · have failed := congrArg Prod.fst ended
    have shape : (inner.enter (outer.enter world).2).2.thread.SameShape later.thread := by
      have kept := level _ (fresh_enter inner (fresh_enter outer fresh)) _ failed
      rwa [ended] at kept
    obtain ⟨chosen, found⟩ : ∃ chosen,
        Clause.select? id later'.thread 0 (first ++ second ++ [last]) = some chosen :=
      Clause.select?_total always id later'.thread 0 (first ++ second)
    refine ⟨.selected chosen.1 chosen.2, ⟨id, rfl⟩, ⟨id, rfl⟩, fun answers => ⟨?_, ?_⟩⟩
    · exact nested_answers always fresh after shape ended found
    · exact handleAll_handled (Clause.scope_total always _) ended' (Clause.dispatch_total always found)
  · refine ⟨.returned value, rfl, rfl, fun answers => ⟨?_, ?_⟩⟩
    · exact handleAll_returned (Clause.scope_total always _)
        (handleSome_returned Clause.scope_chain (congrArg Prod.fst ended))
    · exact handleAll_returned (Clause.scope_total always _) (congrArg Prod.fst ended')

namespace Scenario

structure Diary where
  events : List Event

instance : Discreet application Diary where
  observe event diary := ⟨event :: diary.events⟩
  destroy _ _ := pure ()
  declared _ _ := pure ()
  available _ _ := return true
  produced _ := return none
  Same _ _ := True
  same := ⟨fun _ => trivial, fun _ => trivial, fun _ _ => trivial⟩
  told _ _ := trivial
  inert _ _ := rfl

/-- A failure that gets its echo in a scope of its own, beside a code and another echo. -/
def outcry : Act application Diary (Except FailureId (Nat × Nat)) := do
  let id ← quietly (newFailure [payload .code 7])
  outerScope.during fun _ => discard (quietly (record (Topic.ofKind .echo) (9 : Int) id))
  return .error id

theorem outcry_oblivious : Oblivious outcry := by
  refine .bind (.quietly (.newFailure _)) fun id => .bind (.during _ ?_) fun _ => .pure _
  exact .bind (.quietly (.record _ _ id)) fun _ => .pure ()

theorem outcry_level : outcry.Level := by
  refine .bind (.quietly (.newFailure _)) fun id => .bind (.during _ fun _ => ?_) fun _ => .pure _
  exact .bind (.quietly (.record _ _ id)) fun _ => .pure ()

def wanting (judge : Int → Bool) (kinds : List Kind)
    (free : Arguments.conflict? (kinds.map fun kind => .take (Topic.ofKind kind)) = none) :
    Clause application Diary where
  arguments := kinds.map fun kind => .take (Topic.ofKind kind)
  questions := [.value (Topic.ofKind .code) judge fun _ host => host]
  isLocal := by simp [Argument.isLocal]
  free := Arguments.conflict?_iff.1 free

def giveUp : Clause application Diary := ⟨[], [], by simp, by simp [Arguments.Collide]⟩

def morning : World application Diary := ⟨⟨0, none, none⟩, .fresh application, ⟨[]⟩⟩

def counting (index : Nat) (readings : List (Reading application)) : Nat × Nat :=
  (index, readings.length)

/-- The second handler hears the outcry, code and echo, from the outer block as from the one. -/
theorem outcry_is_heard_alike :
    (handleAll (handleSome outcry (Clause.chain (fun index readings =>
        .ok (counting index readings)) [wanting (· < 5) [.code] rfl]))
      (Clause.total counting 1 [wanting (5 ≤ ·) [.code, .echo] rfl] giveUp rfl)
        morning).1.toOption = some (1, 2) ∧
    (handleAll outcry (Clause.total counting 0 [wanting (· < 5) [.code] rfl,
      wanting (5 ≤ ·) [.code, .echo] rfl] giveUp rfl) morning).1.toOption = some (1, 2) := by
  have last : giveUp.acceptsAll = true := rfl
  have fresh : morning.thread.Fresh := Thread.fresh_fresh
  obtain ⟨ending, _, _, alike⟩ := split_chain_selects_alike outcry_oblivious outcry_level
    [wanting (· < 5) [.code] rfl] [wanting (5 ≤ ·) [.code, .echo] rfl] last fresh
  obtain ⟨nested, whole⟩ := alike counting
  have heard : (handleAll outcry (Clause.total counting 0 [wanting (· < 5) [.code] rfl,
      wanting (5 ≤ ·) [.code, .echo] rfl] giveUp rfl) morning).1.toOption = some (1, 2) := by
    decide +kernel
  exact ⟨(congrArg Except.toOption (nested.trans whole.symm)).trans heard, heard⟩

end Scenario

end FaultRelay

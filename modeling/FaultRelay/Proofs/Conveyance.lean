import FaultRelay.Proofs.Abreast
import FaultRelay.Proofs.HiddenSlots
import FaultRelay.Proofs.Occurrences

/-! A failure that is packed in one place and unpacked in another is handled as if it had never been
moved. The body runs in the scope of the parcel instead of the scope of the handlers; the two runs
keep abreast, though the slots may be opened in another order. What the parcel takes out of the slots
is what the handlers would have found there, and unpacked it is found again. What the parcel leaves
behind is left as by any scope. -/
namespace FaultRelay

variable {V : Vocabulary} {σ α : Type}

namespace Parcel

/-- The values that the slots of `keys` hold for the failure, in the order of `keys`. A type that is
listed again counts once. -/
def contents (id : FailureId) (thread : Thread V) (keys : List (Key V)) : List (Payload V) :=
  keys.eraseDups.filterMap fun key => ((thread.stack key).valueFor id.raw).map (⟨key, ·⟩)

variable {id : FailureId} {thread : Thread V} {keys : List (Key V)} {world : World V σ}

theorem mem_contents {payload : Payload V} :
    payload ∈ contents id thread keys ↔
      payload.key ∈ keys ∧ (thread.stack payload.key).valueFor id.raw = some payload.value := by
  obtain ⟨key, value⟩ := payload
  simp only [contents, List.mem_filterMap, List.mem_eraseDups, Option.map_eq_some_iff]
  constructor
  · rintro ⟨other, listed, held, found, same⟩
    cases same
    exact ⟨listed, found⟩
  · exact fun ⟨listed, found⟩ => ⟨key, listed, value, found, rfl⟩

theorem nodup_contents : ((contents id thread keys).map Payload.key).Nodup := by
  have keyed : (contents id thread keys).map Payload.key = keys.eraseDups.filter
      fun key => ((thread.stack key).valueFor id.raw).isSome := by
    rw [contents, List.map_filterMap, ← List.filterMap_eq_filter]
    refine List.filterMap_congr fun key _ => ?_
    cases found : (thread.stack key).valueFor id.raw <;> simp [Option.guard, found]
  rw [keyed]
  exact (nodup_eraseDups keys).filter _

theorem collect_apply (id : FailureId) (keys : List (Key V)) (world : World V σ) :
    collect id keys world = (contents id world.thread keys, world.without id.raw keys) := by
  induction keys generalizing world with
  | nil => rfl
  | cons key rest ih =>
      let taken := (Slot.takeFor key id.raw world).2
      have later : contents id taken.thread rest =
          (rest.filter (!· == key)).eraseDups.filterMap fun other =>
            ((world.thread.stack other).valueFor id.raw).map (⟨other, ·⟩) := by
        rw [contents, eraseDups_filter, List.filterMap_filter]
        refine List.filterMap_congr fun other _ => ?_
        by_cases here : other = key
        · subst here
          rw [World.stack_takeFor_same]
          rcases stack : world.thread.stack other with ⟨_ | ⟨top, below⟩⟩
          · simp [Stack.takeFor, Stack.onTop, Stack.valueFor, Stack.top?]
          · simp [Stack.takeFor, Stack.onTop, Stack.valueFor, Stack.top?, Frame.valueFor_without]
        · rw [World.stack_takeFor_other here]
          simp [here]
      have first : Slot.takeFor key id.raw world =
          ((world.thread.stack key).valueFor id.raw, taken) := rfl
      simp only [collect, bind, StateT.bind, first, ih, later]
      rw [contents, List.eraseDups_cons, List.filterMap_cons]
      cases (world.thread.stack key).valueFor id.raw <;> rfl

end Parcel

section Unpacking

variable [Host V σ] {world : World V σ} {id : FailureId}

/-- The innermost frame of the type is there and holds nothing. -/
def Thread.Vacant (thread : Thread V) (key : Key V) : Prop :=
  ∃ owner refs below, thread.stack key = ⟨⟨owner, refs, none⟩ :: below⟩

theorem record_vacant {key : Key V} (vacant : world.thread.Vacant key) (value : key.Value) :
    ((record key value id world).2.thread.stack key).valueFor id.raw = some value ∧
      ∀ other, other ≠ key →
        (record key value id world).2.thread.stack other = world.thread.stack other := by
  obtain ⟨owner, refs, below, stack⟩ := vacant
  have alive : world.thread.store ≠ none := Thread.alive_of_frames (by rw [stack]; simp)
  have recorded : (record key value id world).2.thread =
      world.thread.setStack key ⟨⟨owner, refs, some (id.raw, value)⟩ :: below⟩ := by
    rw [record_apply, put_open stack]
    rfl
  rw [recorded]
  refine ⟨?_, fun other apart => Thread.stack_setStack_other _ _ apart⟩
  rw [Thread.stack_setStack alive]
  simp [Stack.valueFor, Stack.top?, Frame.valueFor, Frame.holds, Frame.id, Frame.value?]

/-- Where there is room for it, every payload is found again. -/
theorem recordAll_vacant {payloads : List (Payload V)} (once : (payloads.map Payload.key).Nodup)
    (vacant : ∀ payload ∈ payloads, world.thread.Vacant payload.key) :
    (∀ payload ∈ payloads,
      ((recordAll payloads id world).2.thread.stack payload.key).valueFor id.raw =
        some payload.value) ∧
    ∀ key, key ∉ payloads.map Payload.key →
      (recordAll payloads id world).2.thread.stack key = world.thread.stack key := by
  induction payloads generalizing world with
  | nil => exact ⟨by simp, fun _ _ => rfl⟩
  | cons payload rest ih =>
      obtain ⟨apart, once⟩ := List.nodup_cons.1 once
      obtain ⟨own, others⟩ := List.forall_mem_cons.1 vacant
      obtain ⟨found, beside⟩ := @record_vacant _ _ _ _ id _ own payload.value
      have room : ∀ other ∈ rest,
          (record payload.key payload.value id world).2.thread.Vacant other.key := by
        intro other listed
        have differ : other.key ≠ payload.key := fun same => apart (same ▸ List.mem_map_of_mem listed)
        rw [Thread.Vacant, beside other.key differ]
        exact others other listed
      obtain ⟨later, kept⟩ := ih once room
      refine ⟨List.forall_mem_cons.2 ⟨?_, later⟩, fun key absent => ?_⟩
      · exact (congrArg (·.valueFor id.raw) (kept payload.key apart)).trans found
      · rw [List.map_cons, List.mem_cons, not_or] at absent
        exact (kept key absent.2).trans (beside key absent.1)

end Unpacking


section Packing

variable [Host V σ] {keys : List (Key V)} {body : Act V σ (Except FailureId α)} {world : World V σ}

def Scope.packing (keys : List (Key V)) : Scope V := ⟨.ofKeys keys⟩

theorem mem_packing {key : Key V} : key ∈ (Scope.packing keys).interest.keys ↔ key ∈ keys := by
  rw [Scope.packing, Interest.ofKeys, Interest.ofList, Interest.mem_keys_extend]
  simp [Interest.empty, Interest.keys, Declaration.of, Function.comp_def]

theorem packing_silent : (Scope.packing keys).interest.tallies = false := by
  rw [Scope.packing, Interest.ofKeys, Interest.ofList, Interest.tallies_extend]
  simp [Interest.empty, Interest.tallies, Declaration.of]

namespace Parcel

theorem pack_left {exit : Exit V}
    (left : (body ((Scope.packing keys).enter world).2).1 = .error exit) :
    (pack keys body world).1 = .error exit := by
  unfold pack
  rw [during_result]
  exact congrArg Prod.fst (bind_error left)

theorem pack_returned {value : α}
    (returned : (body ((Scope.packing keys).enter world).2).1 = .ok (.ok value)) :
    (pack keys body world).1 = .ok (.ok value) := by
  unfold pack
  rw [during_result]
  exact congrArg Prod.fst (bind_ok returned)

theorem pack_failed {id : FailureId} {later : World V σ}
    (failed : body ((Scope.packing keys).enter world).2 = (.ok (.error id), later)) :
    pack keys body world = (.ok (.error ⟨id, contents id later.thread keys⟩),
      (((Scope.packing keys).enter world).1.leave (later.without id.raw keys)).2) := by
  have collected : (quietly (collect id keys) : Act V σ (List (Payload V))) later =
      (.ok (contents id later.thread keys), later.without id.raw keys) := by
    unfold quietly
    rw [collect_apply]
  unfold pack
  change (Scope.packing keys).during _ world = _
  rw [during_apply, bind_ok (by rw [failed]), failed]
  dsimp only
  rw [bind_ok (by rw [collected]), collected]
  rfl

def replay (parcel : Parcel V) : Act V σ (Except FailureId α) := do
  return .error (← quietly parcel.unpack)

end Parcel

end Packing

section Entering

variable [Host V σ] {world : World V σ}

omit [Host V σ] in
theorem World.AlikeBut.refl (keys : List (Key V)) (world : World V σ) : world.AlikeBut keys world :=
  ⟨rfl, rfl, rfl, rfl, rfl, rfl, Iff.rfl, fun _ _ => rfl, fun _ => rfl, rfl⟩

theorem Peers.openSlots (peers : Peers σ) (owner : Token) (keys : List (Key V))
    (world : World V σ) : peers.Same (keys.forM (Scope.openSlot owner) world).2.host world.host := by
  induction keys generalizing world with
  | nil => exact peers.same.refl _
  | cons key rest ih =>
      exact peers.same.trans (ih (Scope.openSlot owner key world).2) (peers.told _ _)

theorem Peers.enter (peers : Peers σ) (scope : Scope V) (world : World V σ) :
    peers.Same (scope.enter world).2.host world.host := by
  have opened : peers.Same (scope.opened world).host world.host := peers.openSlots _ _ _
  have entered : peers.Same (scope.entered world).host world.host := by
    rw [Scope.entered]
    cases scope.interest.tallies <;> exact opened
  rw [enter_apply]
  exact peers.same.trans (peers.told _ _) entered

/-- Two scopes of the same types keep abreast, in whatever order they open them. -/
theorem enter_abreast (peers : Peers σ) {first second : Scope V}
    (silent : first.interest.tallies = false ∧ second.interest.tallies = false)
    (same : ∀ key, key ∈ first.interest.keys ↔ key ∈ second.interest.keys)
    (fresh : world.thread.Fresh) :
    ((World.AlikeBut.refl first.interest.keys world).link fresh).Abreast peers False
      (first.enter world).2 (second.enter world).2 where
  process := by rw [enter_process, enter_process]
  lastToken := by rw [enter_lastToken, enter_lastToken]
  drawn := by
    rw [enter_lastToken]
    exact le_refl _
  tallying := by rw [enter_tallying silent.1, enter_tallying silent.2]
  current := by rw [enter_current, enter_current]
  reserved := by rw [enter_reserved, enter_reserved]
  unwindings := by rw [enter_unwindings, enter_unwindings]
  gone := by rw [enter_gone, enter_gone]
  alike := False.elim
  host := peers.same.trans (peers.enter first world) (peers.same.symm (peers.enter second world))
  frames key := by
    let alike := World.AlikeBut.refl first.interest.keys world
    by_cases gone : world.thread.store = none
    · have bare : (alike.link fresh).floor key = none := if_neg (by simp [gone])
      rw [Thread.stack_gone ((enter_gone first world).2 gone),
        Thread.stack_gone ((enter_gone second world).2 gone)]
      exact .bottom bare
    · rw [frames_enter first fresh gone, frames_enter second fresh gone]
      simp only [← same key]
      split
      · rename_i listed
        exact .floor (alike.floor fresh gone listed) 1 none
      · rename_i beyond
        have within : ∀ frame ∈ (world.thread.stack key).frames,
            frame.owner.Within (world.thread.lastToken + 1) := fun frame listed n numbered =>
          (fresh.within frame listed n numbered).trans (Nat.le_succ _)
        exact .refl (alike.bare fresh beyond) fun frame listed =>
          ⟨within frame listed, within frame listed⟩

end Entering

section Leaving

variable [Host V σ]
  (still : ∀ kind value (world : World V σ), (Host.destroy kind value world).2.thread = world.thread)
include still

theorem closeSlot_still (owner : Token) (key : Key V) (world : World V σ) :
    (Scope.closeSlot owner key world).2.thread =
      world.thread.setStack key ((world.thread.stack key).close owner).2 := by
  have released : ∀ (value : key.Value) (world : World V σ),
      (release key value world).2.thread = world.thread := by
    cases key with
    | app kind => exact still kind
    | tally | thrown => exact fun _ _ => rfl
  unfold Scope.closeSlot Slot.close
  simp only [bind, StateT.bind, Slot.onStack_apply]
  rcases ((world.thread.stack key).close owner).1 with _ | _ | ⟨id, _ | value⟩ | ⟨id, value⟩ | _
  · rfl
  · rfl
  · rfl
  · exact released value _
  · exact released value _
  · rfl

theorem stack_leave_still (active : OpenScope V) (world : World V σ) {key : Key V}
    (listed : key ∈ active.interest.keys) :
    (active.leave world).2.thread.stack key = ((world.thread.stack key).close active.token).2 := by
  have closed : ∀ (keys : List (Key V)) (world : World V σ),
      (keys.forM (Scope.closeSlot active.token) world).2.thread =
        world.thread.closeAll active.token keys := by
    intro keys
    induction keys with
    | nil => exact fun _ => rfl
    | cons key rest ih =>
        intro world
        rw [Thread.closeAll_cons, ← closeSlot_still still]
        exact ih _
  have left : (active.leave world).2.thread.stack key =
      (world.thread.closeAll active.token active.interest.keys.reverse).stack key := by
    rw [← closed]
    obtain ⟨interest, token, tallies⟩ := active
    cases tallies <;> rfl
  rw [left, Thread.stack_closeAll _ (List.nodup_reverse.2 active.interest.nodup_keys),
    if_pos (List.mem_reverse.2 listed)]

end Leaving

section Conveying

variable [Host V σ]

/-- What there is to say of a parcel, once `body` has failed in the scope that packs it. -/
structure Conveyed (keys : List (Key V)) (clauses : List (Clause V σ)) (last : Clause V σ)
    (always : last.acceptsAll = true) (body : Act V σ (Except FailureId α)) (world : World V σ)
    (parcel : Parcel V) : Prop where
  /-- In place, the body fails with the same failure, and so does what unpacks the parcel. -/
  failed : (body ((Clause.scope (clauses ++ [last])).enter world).2).1 = .ok (.error parcel.id) ∧
    ∀ receiver : World V σ, (parcel.replay receiver).1 = .ok (.error parcel.id : Except _ α)
  payloads : parcel.payloads =
    Parcel.contents parcel.id (body ((Scope.packing keys).enter world).2).2.thread keys
  /-- One handler is selected in place and wherever the parcel is unpacked, and given the same. -/
  handled : ∃ index readings, ∀ answers : Nat → List (Reading V) → α,
    (handleAll body (Clause.total answers 0 clauses last always) world).1 =
        .ok (answers index readings) ∧
      ∀ receiver : World V σ, receiver.thread.Fresh → receiver.thread.store ≠ none →
        (handleAll parcel.replay (Clause.total answers 0 clauses last always) receiver).1 =
          .ok (answers index readings)
  left : (Parcel.pack keys body world).2 = (((Scope.packing keys).enter world).1.leave
    ((body ((Scope.packing keys).enter world).2).2.without parcel.id.raw keys)).2
  /-- The scope has one frame of each type over those that were there. What it holds for the failure
  is gone when it is left, and what it holds for others is handed down. -/
  slots : world.thread.store ≠ none → ∀ key ∈ keys, ∃ held : Option (Nat × key.Value),
    let token := Token.numbered (world.thread.lastToken + 1)
    let others := held.filter fun pair => pair.1 ≠ parcel.id.raw
    let failed := (body ((Scope.packing keys).enter world).2).2
    (failed.thread.stack key).frames = ⟨token, 1, held⟩ :: (world.thread.stack key).frames ∧
      ((failed.without parcel.id.raw keys).thread.stack key).frames =
        ⟨token, 1, others⟩ :: (world.thread.stack key).frames ∧
      ((∀ kind value (world : World V σ), (Host.destroy kind value world).2.thread = world.thread) →
        ((Parcel.pack keys body world).2.thread.stack key).frames =
          (Stack.handDown others (world.thread.stack key).frames).2)

variable {keys : List (Key V)} {world : World V σ} {id : FailureId}

theorem replay_found {thread : Thread V} {scope : Scope V}
    (same : ∀ key, key ∈ keys ↔ key ∈ scope.interest.keys) {receiver : World V σ}
    (fresh : receiver.thread.Fresh) (alive : receiver.thread.store ≠ none) {key : Key V}
    (listed : key ∈ keys) :
    (((⟨id, Parcel.contents id thread keys⟩ : Parcel V).replay (α := α)
      (scope.enter receiver).2).2.thread.stack key).valueFor id.raw =
        (thread.stack key).valueFor id.raw := by
  let payloads := Parcel.contents id thread keys
  let told := (emit (V := V) (.replaying id payloads.length) (scope.enter receiver).2).2
  have opened : ∀ {other : Key V}, other ∈ keys → told.thread.stack other =
      ⟨.fresh (.numbered (receiver.thread.lastToken + 1)) :: (receiver.thread.stack other).frames⟩ :=
    fun {other} listed => by
      have frames := frames_enter scope fresh alive other
      rw [if_pos ((same other).1 listed)] at frames
      exact congrArg Stack.mk frames
  have room : ∀ payload ∈ payloads, told.thread.Vacant payload.key := fun payload inside =>
    ⟨_, _, _, opened (Parcel.mem_contents.1 inside).1⟩
  obtain ⟨found, beside⟩ := @recordAll_vacant _ _ _ told id payloads Parcel.nodup_contents room
  change ((recordAll payloads id told).2.thread.stack key).valueFor id.raw = _
  rcases held : (thread.stack key).valueFor id.raw with _ | value
  · rw [beside key, opened listed]
    · rfl
    · intro inside
      obtain ⟨payload, packed, rfl⟩ := List.mem_map.1 inside
      have holds := (Parcel.mem_contents.1 packed).2
      rw [held] at holds
      cases holds
  · exact found ⟨key, value⟩ (Parcel.mem_contents.2 ⟨listed, held⟩)

variable {clauses : List (Clause V σ)} {last : Clause V σ}
  {body : Act V σ (Except FailureId α)} {peers : Peers σ} (tidy : Tidy V σ)
  (unbiased : peers.Unbiased (V := V)) (always : last.acceptsAll = true)
  (same : ∀ key, key ∈ keys ↔ key ∈ (Clause.scope (clauses ++ [last])).interest.keys)
  (program : Program (.among V peers) [] body fun _ => []) (fresh : world.thread.Fresh)
include unbiased same program fresh

/-- The body does the same in the scope that packs as in that of the handlers. -/
theorem packing_abreast :
    (body ((Scope.packing keys).enter world).2).1 =
        (body ((Clause.scope (clauses ++ [last])).enter world).2).1 ∧
      ((World.AlikeBut.refl (Scope.packing keys).interest.keys world).link fresh).Abreast peers False
        (body ((Scope.packing keys).enter world).2).2
        (body ((Clause.scope (clauses ++ [last])).enter world).2).2 := by
  let alike := World.AlikeBut.refl (Scope.packing keys).interest.keys world
  have entered := enter_abreast peers
    ⟨packing_silent, Clause.tallies_scope (clauses ++ [last])⟩
    (fun key => mem_packing.trans (same key)) fresh
  have tied : (FaultRelay.abreast unbiased).Ties ⟨⟨alike.link fresh, alike.even fresh⟩, False⟩ []
      ((Scope.packing keys).enter world).2 ((Clause.scope (clauses ++ [last])).enter world).2 :=
    ⟨entered, by simp⟩
  have ends := program.agrees_alone (FaultRelay.abreast unbiased) tied
  obtain ⟨_, abreast, _⟩ := ends.tied
  exact ⟨ends.1, abreast⟩

include tidy

theorem packing_slots (ended : (body ((Scope.packing keys).enter world).2).1 ≠ .error .aborted)
    (alive : world.thread.store ≠ none) {key : Key V} (listed : key ∈ keys) :
    ∃ held, ((body ((Scope.packing keys).enter world).2).2.thread.stack key).frames =
      ⟨.numbered (world.thread.lastToken + 1), 1, held⟩ :: (world.thread.stack key).frames := by
  let alike := World.AlikeBut.refl (Scope.packing keys).interest.keys world
  obtain ⟨_, abreast⟩ := packing_abreast unbiased same program fresh
  have settled := (program.owes_nothing tidy (fresh_enter (Scope.packing keys) fresh) ended).settled.1
  have laid := alike.floor fresh alive (mem_packing.2 listed)
  have outline := settled key
  rw [outline_enter _ fresh alive, if_pos (mem_packing.2 listed)] at outline
  obtain ⟨held, frames, _⟩ := (abreast.frames key).on_floor laid outline
  exact ⟨held, frames⟩

include always

theorem packed_conveyed {id : FailureId}
    (failed : (body ((Scope.packing keys).enter world).2).1 = .ok (.error id)) :
    ∃ parcel : Parcel V, parcel.id = id ∧ (Parcel.pack keys body world).1 = .ok (.error parcel) ∧
      Conveyed keys clauses last always body world parcel := by
  let scope := Clause.scope (clauses ++ [last])
  let later := (body ((Scope.packing keys).enter world).2).2
  obtain ⟨alike, abreast⟩ := packing_abreast unbiased same program fresh
  have packed := Parcel.pack_failed (show body _ = (.ok (.error id), later) from
    Prod.ext failed rfl)
  have failed' : body (scope.enter world).2 = (.ok (.error id), (body (scope.enter world).2).2) :=
    Prod.ext (alike.symm.trans failed) rfl
  -- selection goes by the values alone, which are the same in place, in the parcel and unpacked
  obtain ⟨⟨index, readings⟩, selected⟩ :=
    Clause.select?_total always id later.thread 0 clauses
  have selected' : Clause.select? id (body (scope.enter world).2).2.thread 0 (clauses ++ [last]) =
      some (index, readings) := by
    rw [← selected]
    exact (Clause.select?_congr (fun key _ => (abreast.frames key).valueFor id.raw) 0).symm
  refine ⟨⟨id, Parcel.contents id later.thread keys⟩, rfl, by rw [packed],
    ⟨alike.symm.trans failed, fun _ => rfl⟩, rfl, ⟨index, readings, fun answers => ⟨?_, ?_⟩⟩,
    by rw [packed], fun alive key listed => ?_⟩
  · exact handleAll_handled (Clause.scope_total always 0) failed'
      (Clause.dispatch_total always selected')
  · intro receiver receives stored
    let parcel : Parcel V := ⟨id, Parcel.contents id later.thread keys⟩
    have again : Clause.select? id (parcel.replay (α := α) (scope.enter receiver).2).2.thread 0
        (clauses ++ [last]) = some (index, readings) := by
      rw [← selected]
      exact Clause.select?_congr (fun key listed =>
        replay_found same receives stored ((same key).2 listed)) 0
    exact handleAll_handled (Clause.scope_total always 0) rfl
      (Clause.dispatch_total always again)
  · obtain ⟨held, frames⟩ := packing_slots tidy unbiased same program fresh
      (by rw [failed]; simp) alive listed
    have emptied : ((later.without id.raw keys).thread.stack key).frames =
        ⟨.numbered (world.thread.lastToken + 1), 1, held.filter fun pair => pair.1 ≠ id.raw⟩ ::
          (world.thread.stack key).frames := by
      rw [World.stack_without, if_pos listed,
        show later.thread.stack key = ⟨_⟩ from congrArg Stack.mk frames]
      rcases held with _ | ⟨tag, value⟩
      · rfl
      · by_cases own : tag = id.raw <;>
          simp [Stack.takeFor, Stack.onTop, Frame.without, Frame.holds, Frame.id, Frame.cleared,
            Option.filter, own]
    refine ⟨held, frames, emptied, fun still => ?_⟩
    have active : ((Scope.packing keys).enter world).1 = ⟨(Scope.packing keys).interest,
      .numbered (world.thread.lastToken + 1), (Scope.packing keys).interest.tallies⟩ := by
        rw [enter_apply]
    rw [packed, active, stack_leave_still still _ _ (mem_packing.2 listed),
      show (later.without id.raw keys).thread.stack key = ⟨_⟩ from congrArg Stack.mk emptied,
      Stack.close, Stack.closeFrames, if_pos rfl, if_neg (lt_irrefl 1)]

theorem replayed_failures_are_handled_alike :
    match (body ((Scope.packing keys).enter world).2).1 with
    | .ok (.error id) => ∃ parcel : Parcel V, parcel.id = id ∧
        (Parcel.pack keys body world).1 = .ok (.error parcel) ∧
        Conveyed keys clauses last always body world parcel
    | .ok (.ok value) => (Parcel.pack keys body world).1 = .ok (.ok value) ∧
        ∀ answers : Nat → List (Reading V) → α,
          (handleAll body (Clause.total answers 0 clauses last always) world).1 = .ok value
    | .error exit => (Parcel.pack keys body world).1 = .error exit ∧
        ∀ answers : Nat → List (Reading V) → α,
          (handleAll body (Clause.total answers 0 clauses last always) world).1 = .error exit := by
  obtain ⟨alike, _⟩ := packing_abreast unbiased same program fresh
  split <;> rename_i ended <;> rw [ended] at alike
  · exact packed_conveyed tidy unbiased always same program fresh ended
  · exact ⟨Parcel.pack_returned ended, fun _ =>
      handleAll_returned (Clause.scope_total always 0) alike.symm⟩
  · exact ⟨Parcel.pack_left ended, fun _ =>
      handleAll_passed (Clause.scope_total always 0) alike.symm⟩

end Conveying

namespace Scenario

theorem diary_unbiased : (Discreet.peers application Diary).Unbiased (V := application) where
  destroy _ _ _ _ _ _ _ abreast := ⟨rfl, abreast⟩
  declared _ _ _ _ _ _ _ abreast := ⟨rfl, abreast⟩
  available _ _ _ _ _ _ _ abreast := ⟨rfl, abreast⟩
  produced _ _ _ _ _ _ abreast := ⟨rfl, abreast⟩

def whisper : Act application Diary (Except FailureId (Nat × Nat)) := do
  discard (quietly (newFailure [payload .name "hush"]))
  outcry

theorem outcry_program {range : Range application Diary} (every : ∀ key, range.slot key) :
    Program range [] outcry fun _ => [] := by
  refine .bind (.quiet (.newFailure (every _) fun _ _ => every _)) fun id => ?_
  refine .bind (.during outerScope fun _ => ?_) fun _ => .just _
  exact .bind (.quiet (.record (every _) (every _) _ id)) fun _ => .just ()

theorem whisper_program {range : Range application Diary} (every : ∀ key, range.slot key) :
    Program range [] whisper fun _ => [] :=
  .bind (.bind (.quiet (.newFailure (every _) fun _ _ => every _)) fun _ => .just ())
    fun _ => outcry_program every

/-- The types of a parcel; echoes are listed twice. -/
def luggage : List (Key application) :=
  [Topic.ofKind .echo, Topic.ofKind .name, Topic.ofKind .code, Topic.ofKind .echo]

def overhearing : World application Diary :=
  ((⟨.ofKeys [Topic.ofKind .name]⟩ : Scope application).enter morning).2

/-- The outcry is packed without the whisper, which its thread hears, and is answered elsewhere. -/
theorem outcry_is_conveyed : ∃ parcel : Parcel application,
    (Parcel.pack luggage whisper overhearing).1 = .ok (.error parcel) ∧
      Conveyed luggage [wanting (5 ≤ ·) [.name] rfl, wanting (5 ≤ ·) [.code, .echo] rfl] giveUp rfl
        whisper overhearing parcel ∧
      parcel = ⟨.numbered 2, [payload .echo 9, payload .code 7]⟩ ∧
      (handleAll parcel.replay (Clause.total counting 0 [wanting (5 ≤ ·) [.name] rfl,
        wanting (5 ≤ ·) [.code, .echo] rfl] giveUp rfl) morning).1.toOption = some (1, 2) ∧
      Option.any (fun name : String => name == "hush")
        (((Parcel.pack luggage whisper overhearing).2.thread.stack (Topic.ofKind .name)).valueFor
          (FailureId.numbered 1).raw) = true := by
  have last : giveUp.acceptsAll = true := rfl
  have same : ∀ key, key ∈ luggage ↔ key ∈ (Clause.scope ([wanting (5 ≤ ·) [.name] rfl,
      wanting (5 ≤ ·) [.code, .echo] rfl] ++ [giveUp])).interest.keys := by
    intro key
    have listed : (Clause.scope ([wanting (5 ≤ ·) [.name] rfl,
      wanting (5 ≤ ·) [.code, .echo] rfl] ++ [giveUp])).interest.keys =
        [Topic.ofKind .name, Topic.ofKind .code, Topic.ofKind .echo] := rfl
    rw [listed, luggage]
    simp only [List.mem_cons, List.not_mem_nil]
    tauto
  have fresh : overhearing.thread.Fresh := fresh_enter _ Thread.fresh_fresh
  have conveyed := replayed_failures_are_handled_alike diary_tidy diary_unbiased last same
    (whisper_program fun _ => trivial) fresh
  have failed : (whisper ((Scope.packing luggage).enter overhearing).2).1 =
      .ok (.error (.numbered 2)) := rfl
  rw [failed] at conveyed
  obtain ⟨⟨id, payloads⟩, known, packed, conveyed⟩ := conveyed
  obtain rfl : id = .numbered 2 := known
  obtain rfl : payloads = [payload .echo 9, payload .code 7] := conveyed.payloads.trans rfl
  exact ⟨_, packed, conveyed, rfl, by decide +kernel, by decide +kernel⟩

end Scenario

end FaultRelay

import FaultRelay.Handler.Argument
import FaultRelay.Proofs.Linear

/-! Each operation of the library is linear as soon as the code of the application is orderly: that
code is a run of its own, free to record, to open scopes and to end values, that leaves in hand what
it found there. -/
namespace FaultRelay

variable {V : Vocabulary} {σ : Type} [Client V σ]

/-- The operation is linear and turns what is in hand from `before` into `after`. -/
def Conducts {α : Type} (before : Hand V) (act : Quiet V (Ledger V σ) α)
    (world : World V (Ledger V σ)) (after : Hand V) : Prop :=
  ∃ deeds, Linear before (quietly act) world deeds after

/-- The application's own code keeps nothing and takes nothing that its caller has in hand. -/
class Orderly (V : Vocabulary) (σ : Type) [Client V σ] : Prop where
  parting (kind : V.Kind) (value : V.Value kind) (hand : Hand V) (world : World V (Ledger V σ)) :
    Conducts hand (Client.parting kind value) world hand
  declared (custom : V.Custom) (count : Nat) (hand : Hand V) (world : World V (Ledger V σ)) :
    Conducts hand (Client.declared custom count) world hand
  available (custom : V.Custom) (case : Case V) (hand : Hand V) (world : World V (Ledger V σ)) :
    Conducts hand (Client.available custom case) world hand
  produced (custom : V.Custom) (hand : Hand V) (world : World V (Ledger V σ)) :
    Conducts hand (Client.produced custom) world hand

namespace Conducts

variable {α β : Type} {before middle after hand : Hand V} {world : World V (Ledger V σ)}

theorem unmoved {act : Quiet V (Ledger V σ) α} (unmoved : Unmoved world (act world).2) :
    Conducts hand act world hand := ⟨[.other], .idle unmoved⟩

theorem pure (value : α) : Conducts hand (Pure.pure value) world hand := unmoved (.refl world)

theorem bind {act : Quiet V (Ledger V σ) α} {next : α → Quiet V (Ledger V σ) β}
    (first : Conducts before act world middle)
    (second : Conducts middle (next (act world).1) (act world).2 after) :
    Conducts before (act >>= next) world after := by
  obtain ⟨deeds, linear⟩ := first
  obtain ⟨more, further⟩ := second
  rw [Conducts, quietly_bind]
  exact ⟨deeds ++ more, linear.bind rfl further⟩

theorem emit (event : Event) : Conducts hand (emit event) world hand :=
  unmoved (Unmoved.emit event world)

theorem ignore {act : Quiet V (Ledger V σ) α} (conducts : Conducts before act world after) :
    Conducts before (discard act) world after := by
  have shape : discard act = (act >>= fun _ => Pure.pure ()) := rfl
  rw [shape]
  exact conducts.bind (pure ())

end Conducts

section Values

variable {hand : Hand V} {world : World V (Ledger V σ)} [Orderly V σ]

theorem release_conducts (key : Key V) (value : key.Value) :
    Conducts (.value ⟨key, value⟩ ::ₘ hand) (release key value) world hand := by
  have parts : Conducts hand (parting key value) (world.noteEnded ⟨key, value⟩) hand := by
    cases key with
    | app kind => exact Orderly.parting kind value hand _
    | tally | thrown => exact .pure ()
  obtain ⟨deeds, linear⟩ := parts
  exact ⟨_, .release linear⟩

theorem releaseAll_conducts (payloads : List (Payload V)) :
    Conducts (.values payloads + hand) (releaseAll payloads) world hand := by
  induction payloads generalizing world with
  | nil =>
      rw [Hand.values_nil, zero_add]
      exact .pure ()
  | cons payload rest ih =>
      rw [Hand.values_cons, Multiset.cons_add]
      exact .bind (release_conducts payload.key payload.value) ih

theorem releaseValues_conducts (key : Key V) (values : List key.Value) :
    Conducts (.values (key.payloads values) + hand) (values.forM (release key)) world hand := by
  induction values generalizing world with
  | nil =>
      rw [Hand.values_none]
      exact .pure ()
  | cons value rest ih =>
      rw [Key.payloads_cons, Hand.values_cons, Multiset.cons_add]
      exact .bind (release_conducts key value) ih

end Values

section Recording

variable {hand : Hand V} {world : World V (Ledger V σ)}

omit [Client V σ] in
theorem inForce_unmoved (world : World V (Ledger V σ)) :
    Unmoved world (Settings.inForce world).2 := by
  obtain ⟨⟨drawn, settings, environment⟩, thread, host⟩ := world
  cases settings <;> exact ⟨rfl, rfl, rfl, rfl, rfl⟩

omit [Client V σ] in
theorem tallying_unmoved (world : World V (Ledger V σ)) : Unmoved world (tallying world).2 :=
  inForce_unmoved world

theorem editTop_conducts (name : String) (id : Nat) :
    Conducts hand (Slot.editTop .tally (countStray name id)) world hand :=
  ⟨_, .count name id⟩

theorem noteStray_conducts (key : Key V) (id : FailureId) :
    Conducts hand (noteStray key id) world hand := by
  refine .bind (.emit _) (.bind (.unmoved (tallying_unmoved _)) ?_)
  split
  · exact .ignore (editTop_conducts _ _)
  · exact .pure ()

theorem settle_conducts {key : Key V} {ending : key.Value → Quiet V (Ledger V σ) Unit}
    (ends : ∀ value world, Conducts (.value ⟨key, value⟩ ::ₘ hand) (ending value) world hand)
    (id : FailureId) (answer : Stored key.Value) :
    Conducts (.values (key.payloads answer.freed) + hand) (settle key ending id answer) world
      hand := by
  match answer with
  | .stored none =>
      rw [Stored.freed, Hand.values_none]
      exact .pure true
  | .stored (some previous) =>
      rw [Stored.freed, Hand.values_one]
      exact .bind (ends previous _) (.pure true)
  | .rejected refused =>
      rw [Stored.freed, Hand.values_one]
      exact .bind (ends refused _) (.bind (noteStray_conducts key id) (.pure false))

theorem recordEnding_conducts {key : Key V} {ending : key.Value → Quiet V (Ledger V σ) Unit}
    (ends : ∀ value world, Conducts (.value ⟨key, value⟩ ::ₘ hand) (ending value) world hand)
    (value : key.Value) (id : FailureId) :
    Conducts (.value ⟨key, value⟩ ::ₘ hand) (recordEnding key ending value id) world hand := by
  have settles : Conducts _ _ (Slot.put key id.raw value world).2 hand :=
    settle_conducts ends id (Slot.put key id.raw value world).1
  obtain ⟨deeds, linear⟩ := settles
  exact ⟨_, .recordEnding linear⟩

variable [Orderly V σ]

theorem record_conducts (key : Key V) (value : key.Value) (id : FailureId) :
    Conducts (.value ⟨key, value⟩ ::ₘ hand) (record key value id) world hand := by
  have settles : Conducts _ _ (Slot.put key id.raw value world).2 hand :=
    settle_conducts (fun value _ => release_conducts key value) id
      (Slot.put key id.raw value world).1
  obtain ⟨deeds, linear⟩ := settles
  exact ⟨_, .record linear⟩

theorem recordAll_conducts (payloads : List (Payload V)) (id : FailureId) :
    Conducts (.values payloads + hand) (recordAll payloads id) world hand := by
  induction payloads generalizing world with
  | nil =>
      rw [Hand.values_nil, zero_add]
      exact .pure ()
  | cons payload rest ih =>
      rw [Hand.values_cons, Multiset.cons_add]
      exact .bind (.ignore (record_conducts payload.key payload.value id)) ih

end Recording

section Scopes

variable {hand : Hand V} {world : World V (Ledger V σ)}

variable [Orderly V σ]

theorem shed_conducts (key : Key V) (answer : Closed key.Value) :
    Conducts (.values (key.payloads answer.freed) + hand) (shed key answer) world hand := by
  match answer with
  | .retained | .released | .notOpen =>
      rw [Closed.freed, Hand.values_none]
      exact .pure ()
  | .propagated id none =>
      rw [Closed.freed, Hand.values_none]
      exact .emit _
  | .propagated id (some replaced) =>
      rw [Closed.freed, Hand.values_one]
      exact .bind (.emit _) (release_conducts key replaced)
  | .discarded id value =>
      rw [Closed.freed, Hand.values_one]
      exact .bind (.emit _) (release_conducts key value)

theorem closeSlot_conducts (owner : Token) (key : Key V) (rest : List (Key V)) (tallies : Bool) :
    Conducts (.closing owner (key :: rest) tallies ::ₘ hand) (Scope.closeSlot owner key) world
      (.closing owner rest tallies ::ₘ hand) := by
  have sheds : Conducts _ _ (Slot.close key owner world).2
      (.closing owner rest tallies ::ₘ hand) := shed_conducts key (Slot.close key owner world).1
  obtain ⟨deeds, linear⟩ := sheds
  exact ⟨_, .close linear⟩

theorem closeSlots_conducts (owner : Token) (keys : List (Key V)) (tallies : Bool) :
    Conducts (.closing owner keys tallies ::ₘ hand) (keys.forM (Scope.closeSlot owner)) world
      (.closing owner [] tallies ::ₘ hand) := by
  induction keys generalizing world with
  | nil => exact .pure ()
  | cons key rest ih => exact .bind (closeSlot_conducts owner key rest tallies) ih

theorem leave_conducts (scope : OpenScope V) :
    Conducts (.scope scope ::ₘ hand) scope.leave world hand := by
  have closes : Conducts (.closing scope.token scope.interest.keys.reverse scope.tallies ::ₘ hand)
      scope.leave world hand := by
    rw [leave_eq_lessTallying]
    have left : ∀ world : World V (Ledger V σ), Conducts
        (.closing scope.token [] scope.tallies ::ₘ hand)
        (modify (World.lessTallying scope.tallies)) world hand :=
      fun _ => ⟨_, .left scope.token scope.tallies⟩
    exact .bind (closeSlots_conducts scope.token _ scope.tallies) (.bind (left _) (.emit _))
  obtain ⟨deeds, linear⟩ := closes
  exact ⟨_, .leave linear⟩

end Scopes

section Failures

variable {hand : Hand V} {world : World V (Ledger V σ)}

theorem take_conducts (key : Key V) (id : Nat) :
    Conducts hand (Slot.takeFor key id) world
      (.values (key.payloads (Slot.takeFor key id world).1.toList) + hand) :=
  ⟨_, .take key id⟩

omit [Client V σ] in
theorem collect_cons (id : FailureId) (key : Key V) (rest : List (Key V))
    (world : World V (Ledger V σ)) :
    Parcel.collect id (key :: rest) world =
      (key.payloads (Slot.takeFor key id.raw world).1.toList ++
        (Parcel.collect id rest (Slot.takeFor key id.raw world).2).1,
        (Parcel.collect id rest (Slot.takeFor key id.raw world).2).2) := by
  simp only [Parcel.collect, bind, StateT.bind, pure]
  generalize Slot.takeFor key id.raw world = answer
  obtain ⟨taken, later⟩ := answer
  cases taken <;> rfl

theorem collect_conducts (id : FailureId) (keys : List (Key V)) :
    Conducts hand (Parcel.collect id keys) world
      (.values (Parcel.collect id keys world).1 + hand) := by
  induction keys generalizing world hand with
  | nil =>
      rw [show (Parcel.collect id [] world).1 = [] from rfl, Hand.values_nil, zero_add]
      exact .pure []
  | cons key rest ih =>
      have owned : (.values (Parcel.collect id (key :: rest) world).1 + hand : Hand V) =
          .values (Parcel.collect id rest (Slot.takeFor key id.raw world).2).1 +
            (.values (key.payloads (Slot.takeFor key id.raw world).1.toList) + hand) := by
        rw [collect_cons, Hand.values_append, add_assoc, add_left_comm]
      rw [owned]
      refine .bind (take_conducts key id.raw) (.bind ih ?_)
      cases (Slot.takeFor key id.raw world).1 <;> exact .pure _

theorem pack_conducts (id : FailureId) (keys : List (Key V)) :
    Conducts hand (Parcel.collect id keys) world
      (.parcel (Parcel.collect id keys world).1 ::ₘ hand) := by
  have collects : Conducts hand (Parcel.collect id keys) world _ := collect_conducts id keys
  obtain ⟨deeds, linear⟩ := collects
  exact ⟨_, .collect linear⟩

omit [Client V σ] in
theorem upcoming_unmoved (world : World V (Ledger V σ)) :
    Unmoved world (FailureId.upcoming world).2 := by
  obtain ⟨process, ⟨store, lastToken, tallying, current, reserved, unwindings⟩, host⟩ := world
  cases reserved <;> exact ⟨rfl, rfl, rfl, rfl, rfl⟩

omit [Client V σ] in
theorem mint_unmoved (world : World V (Ledger V σ)) :
    Unmoved world (FailureId.mint world).2 :=
  (upcoming_unmoved world).trans ⟨rfl, rfl, rfl, rfl, rfl⟩

omit [Client V σ] in
theorem reserve_unmoved (world : World V (Ledger V σ)) :
    Unmoved world (FailureId.reserve world).2 :=
  (upcoming_unmoved world).trans ⟨rfl, rfl, rfl, rfl, rfl⟩

omit [Client V σ] in
theorem identify_unmoved (object : Thrown V) (world : World V (Ledger V σ)) :
    Unmoved world (object.identify world).2 := by
  unfold Thrown.identify
  cases object.carried? with
  | none => exact mint_unmoved world
  | some id => exact .refl world

variable [Orderly V σ]

theorem keep_conducts (object : Thrown V) : Conducts hand object.keep world hand := by
  have keeps : Conducts (.value ⟨.thrown, object⟩ ::ₘ hand) object.keep world hand :=
    .bind (.unmoved (identify_unmoved object world))
      (.bind (.emit _) (.bind (.ignore (record_conducts .thrown object _)) (.pure _)))
  obtain ⟨deeds, linear⟩ := keeps
  exact ⟨_, .keep linear⟩

theorem unpack_conducts (parcel : Parcel V) :
    Conducts (.parcel parcel.payloads ::ₘ hand) parcel.unpack world hand := by
  have unpacks : Conducts (.values parcel.payloads + hand) parcel.unpack world hand :=
    .bind (.emit _) (.bind (recordAll_conducts parcel.payloads parcel.id) (.pure _))
  obtain ⟨deeds, linear⟩ := unpacks
  exact ⟨_, .unpack linear⟩

theorem dropParcel_conducts (parcel : Parcel V) :
    Conducts (.parcel parcel.payloads ::ₘ hand) parcel.drop world hand := by
  have drops : Conducts (.values parcel.payloads + hand) parcel.drop world hand :=
    releaseAll_conducts parcel.payloads
  obtain ⟨deeds, linear⟩ := drops
  exact ⟨_, .dropParcel linear⟩

end Failures

section Storage

variable {hand : Hand V} {world : World V (Ledger V σ)} [Orderly V σ]

theorem releaseEntries_conducts (entries : List ((key : Key V) × Stack key.Value)) :
    Conducts (.values (entries.flatMap fun entry => entry.1.payloads entry.2.values) + hand)
      (entries.forM fun entry => entry.2.values.forM (release entry.1)) world hand := by
  induction entries generalizing world with
  | nil =>
      rw [List.flatMap_nil, Hand.values_nil, zero_add]
      exact .pure ()
  | cons entry rest ih =>
      rw [List.flatMap_cons, Hand.values_append, add_assoc]
      exact .bind (releaseValues_conducts entry.1 entry.2.values) ih

theorem endStored_conducts (thread : Thread V) :
    Conducts (.values thread.payloads + hand) (endStored thread.store) world hand := by
  obtain ⟨_ | store, lastToken, tallying, current, reserved, unwindings⟩ := thread
  · rw [Thread.payloads, Hand.values_nil, zero_add]
    exact .pure ()
  · exact releaseEntries_conducts store.entries

theorem endStorage_conducts : Conducts hand Slot.endStorage world hand := by
  have ends : Conducts _ (endStored world.thread.store) world.withoutStorage hand :=
    endStored_conducts world.thread
  obtain ⟨deeds, linear⟩ := ends
  exact ⟨_, .endStorage linear⟩

end Storage

section Programs

variable {hand : Hand V} {world : World V (Ledger V σ)} [Orderly V σ]

variable {κ : Key V → Type} {guard : Guard V κ} {payloads : List (Payload V)}

theorem dismiss_conducts (prepared : guard.context = .prepared payloads) :
    Conducts (.guard payloads ::ₘ hand) guard.dismiss world hand := by
  have dismisses : Conducts (.values payloads + hand) guard.dismiss world hand := by
    unfold Guard.dismiss
    rw [prepared]
    exact releaseAll_conducts payloads
  obtain ⟨deeds, linear⟩ := dismisses
  exact ⟨_, .dismiss prepared linear⟩

omit [Client V σ] [Orderly V σ] in
theorem target_unmoved (guard : Guard V κ) (world : World V (Ledger V σ)) :
    Unmoved world (guard.target world).2 := by
  have shape : guard.target world =
      (if world.thread.current ≠ guard.baseline then pure world.thread.current
        else if decide (0 < world.thread.unwindings) && !guard.wasUnwinding then
          return some (← FailureId.reserve)
        else pure none : Quiet V (Ledger V σ) (Option FailureId)) world := by
    unfold Guard.target
    simp only [bind, StateT.bind, FailureId.current_apply]
    split <;> rfl
  rw [shape]
  split
  · exact .refl world
  · split
    · exact reserve_unmoved world
    · exact .refl world

theorem drop_linear {run : (key : Key V) → κ key → Act V (Ledger V σ) key.Value}
    (prepared : guard.context = .prepared payloads) :
    ∃ deeds, Linear (.guard payloads ::ₘ hand) (guard.drop run) world deeds hand := by
  have targeted : Conducts (.values payloads + hand) guard.target world (.values payloads + hand) :=
    .unmoved (target_unmoved guard world)
  have fired : ∀ id later, ∃ deeds,
      Linear (.values payloads + hand) (Guard.fire run guard.context id) later deeds hand := by
    intro id later
    rw [prepared]
    exact recordAll_conducts payloads id
  have dismissed : ∀ later : World V (Ledger V σ),
      Conducts (.values payloads + hand) guard.dismiss later hand := by
    intro later
    unfold Guard.dismiss
    rw [prepared]
    exact releaseAll_conducts payloads
  obtain ⟨deeds, targeting⟩ := targeted
  cases target : (guard.target world).1 with
  | none =>
      obtain ⟨more, dismissing⟩ := dismissed (guard.target world).2
      exact ⟨_, .drop prepared (targeting.bind (congrArg Except.ok target) dismissing)⟩
  | some id =>
      obtain ⟨more, firing⟩ := fired id (guard.target world).2
      exact ⟨_, .drop prepared (targeting.bind (congrArg Except.ok target) firing)⟩

end Programs

end FaultRelay

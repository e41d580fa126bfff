import FaultRelay.Proofs.Echo
import FaultRelay.Proofs.Outline

/-! The scopes of a thread and its stacks. While a thread has storage, the frames of a payload type
are those of the scopes that still have the type open, in the order of activation and each opened
once, and the tally counter counts the scopes that asked for the tally. A scope that is being left
still counts for the types it has not closed. -/
namespace FaultRelay

variable {V : Vocabulary} {σ : Type}

/-- A scope as the stacks see it: the types it still has open, and its share of the tally counter. -/
structure Mount (V : Vocabulary) where
  owner : Token
  keys : List (Key V)
  tallies : Bool

def Holding.mount? : Holding V → Option (Mount V)
  | scope opened => some ⟨opened.token, opened.interest.keys, opened.tallies⟩
  | closing owner rest tallies => some ⟨owner, rest, tallies⟩
  | value _ | guard _ | parcel _ => none

def Hand.mounts (hand : Hand V) : Multiset (Mount V) := hand.filterMap Holding.mount?

theorem Hand.mounts_add (first second : Hand V) :
    Hand.mounts (first + second) = Hand.mounts first + Hand.mounts second :=
  Multiset.filterMap_add _ first second

theorem Hand.mounts_cons_none {holding : Holding V} (plain : holding.mount? = none) (hand : Hand V) :
    Hand.mounts (holding ::ₘ hand) = Hand.mounts hand :=
  Multiset.filterMap_cons_none _ _ plain

theorem Hand.mounts_cons_some {holding : Holding V} {mount : Mount V}
    (mounted : holding.mount? = some mount) (hand : Hand V) :
    Hand.mounts (holding ::ₘ hand) = mount ::ₘ Hand.mounts hand :=
  Multiset.filterMap_cons_some _ _ _ mounted

theorem Hand.mounts_values (payloads : List (Payload V)) : Hand.mounts (.values payloads) = 0 := by
  induction payloads with
  | nil => rfl
  | cons payload rest ih => rw [values_cons, mounts_cons_none rfl, ih]

theorem Hand.mounts_portable {hand : Hand V}
    (portable : ∀ holding ∈ hand, holding.isPortable = true) : Hand.mounts hand = 0 := by
  induction hand using Multiset.induction_on with
  | empty => rfl
  | cons holding rest ih =>
      have plain : holding.mount? = none := by
        have allowed := portable holding (Multiset.mem_cons_self holding rest)
        cases holding with
        | value | parcel => rfl
        | guard | scope | closing => cases allowed
      rw [mounts_cons_none plain]
      exact ih fun other listed => portable other (Multiset.mem_cons_of_mem listed)

def Mount.outline (mounts : List (Mount V)) (key : Key V) : List (Token × Nat) :=
  (mounts.filter (·.keys.contains key)).map fun mount => (mount.owner, 1)

/-- The mounts, the most recent first, describe the scene. -/
structure Represents (mounts : List (Mount V)) (scene : Scene V σ) : Prop where
  listed : ↑mounts = scene.hand.mounts
  recent : mounts.Pairwise fun later earlier => earlier.owner.value < later.owner.value
  drawn : ∀ mount ∈ mounts, mount.owner.value ≤ scene.world.thread.lastToken
  once : ∀ mount ∈ mounts, mount.keys.Nodup
  framed : scene.world.thread.store ≠ none →
    ∀ key, (scene.world.thread.stack key).outline = Mount.outline mounts key
  counted : scene.world.thread.tallying = mounts.countP (·.tallies)

namespace Represents

variable {mounts : List (Mount V)} {scene : Scene V σ} {hand : Hand V} {lends : List (Lend V)}
  {world : World V (Ledger V σ)}

theorem fresh (start : world.thread = .fresh V)
    (portable : ∀ holding ∈ hand, holding.isPortable = true) :
    Represents [] (⟨hand, lends, world⟩ : Scene V σ) where
  listed := (Hand.mounts_portable portable).symm
  recent := .nil
  drawn := by simp
  once := by simp
  framed := by
    intro _ key
    rw [start]
    rfl
  counted := by rw [start]; rfl

/-- Whatever keeps the mounts in hand, the counters and the outlines keeps the description. -/
theorem keep (represents : Represents mounts scene) {later : Scene V σ}
    (mounted : later.hand.mounts = scene.hand.mounts)
    (drawn : later.world.thread.lastToken = scene.world.thread.lastToken)
    (counted : later.world.thread.tallying = scene.world.thread.tallying)
    (stored : scene.world.thread.store = none → later.world.thread.store = none)
    (framed : later.world.thread.store ≠ none → ∀ key,
      (later.world.thread.stack key).outline = (scene.world.thread.stack key).outline) :
    Represents mounts later where
  listed := represents.listed.trans mounted.symm
  recent := represents.recent
  drawn := by rw [drawn]; exact represents.drawn
  once := represents.once
  framed := by
    intro alive key
    rw [framed alive key, represents.framed (fun gone => alive (stored gone))]
  counted := by rw [counted]; exact represents.counted

theorem placed (represents : Represents mounts scene) {mount : Mount V} {rest : Multiset (Mount V)}
    (mounted : scene.hand.mounts = mount ::ₘ rest) :
    ∃ newer older, mounts = newer ++ mount :: older ∧ ↑(newer ++ older) = rest := by
  have member : mount ∈ mounts := by
    have inHand : mount ∈ (↑mounts : Multiset (Mount V)) := by
      rw [represents.listed, mounted]
      exact Multiset.mem_cons_self mount rest
    exact Multiset.mem_coe.1 inHand
  obtain ⟨newer, older, rfl⟩ := List.append_of_mem member
  refine ⟨newer, older, rfl, ?_⟩
  have listed := represents.listed
  have moved : (↑(newer ++ mount :: older) : Multiset (Mount V)) = mount ::ₘ ↑(newer ++ older) :=
    Multiset.coe_eq_coe.2 List.perm_middle
  rw [mounted, moved] at listed
  exact (Multiset.cons_inj_right mount).1 listed

theorem apart {newer older : List (Mount V)} {mount : Mount V}
    (represents : Represents (newer ++ mount :: older) scene) (key : Key V) :
    ∀ entry ∈ Mount.outline newer key, entry.1 ≠ mount.owner := by
  intro entry listed same
  obtain ⟨other, open_, rfl⟩ := List.mem_map.1 listed
  have later := (List.pairwise_append.1 represents.recent).2.2 other (List.mem_filter.1 open_).1
    mount List.mem_cons_self
  rw [show other.owner = mount.owner from same] at later
  exact lt_irrefl _ later

theorem opened_once (represents : Represents mounts scene) (alive : scene.world.thread.store ≠ none)
    (key : Key V) : ∀ frame ∈ (scene.world.thread.stack key).frames, frame.refs = 1 := by
  intro frame listed
  have entry : (frame.owner, frame.refs) ∈ (scene.world.thread.stack key).outline :=
    List.mem_map.2 ⟨frame, listed, rfl⟩
  rw [represents.framed alive] at entry
  obtain ⟨mount, mounted, same⟩ := List.mem_map.1 entry
  exact (congrArg Prod.snd same).symm

/-- No two frames of a type have the same owner. -/
theorem owners_nodup (represents : Represents mounts scene) (key : Key V) :
    ((scene.world.thread.stack key).frames.map Frame.owner).Nodup := by
  by_cases gone : scene.world.thread.store = none
  · rw [Thread.stack_gone gone]
    exact List.nodup_nil
  · have owners : (scene.world.thread.stack key).frames.map Frame.owner =
        (mounts.filter (·.keys.contains key)).map Mount.owner := by
      have outlined := congrArg (List.map Prod.fst) (represents.framed gone key)
      rw [Stack.outline, Stack.outlineOf, Mount.outline, List.map_map, List.map_map] at outlined
      exact outlined
    rw [owners]
    refine List.pairwise_map.2 ((represents.recent.sublist List.filter_sublist).imp ?_)
    intro later earlier older same
    rw [same] at older
    exact lt_irrefl _ older

theorem tallying_pos (represents : Represents mounts scene) {opened : OpenScope V}
    (inHand : .scope opened ∈ scene.hand) (tallies : opened.tallies = true) :
    0 < scene.world.thread.tallying := by
  obtain ⟨rest, hand⟩ := Multiset.exists_cons_of_mem inHand
  have mounted : scene.hand.mounts = ⟨opened.token, opened.interest.keys, opened.tallies⟩ ::ₘ
      Hand.mounts rest := by rw [hand, Hand.mounts_cons_some rfl]
  obtain ⟨newer, older, shape, _⟩ := represents.placed mounted
  rw [represents.counted, List.countP_pos_iff]
  exact ⟨_, by rw [shape]; exact List.mem_append_right _ List.mem_cons_self, tallies⟩

end Represents

theorem Mount.outline_eq (mounts : List (Mount V)) (key : Key V) :
    outline mounts key = (mounts.filter (key ∈ ·.keys)).map fun mount => (mount.owner, 1) := by
  rw [outline]
  congr 2
  funext mount
  rw [List.contains_eq_mem]

theorem Mount.outline_append (newer older : List (Mount V)) (key : Key V) :
    outline (newer ++ older) key = outline newer key ++ outline older key := by
  rw [outline, List.filter_append, List.map_append]
  rfl

theorem Mount.outline_cons_open {mount : Mount V} {key : Key V} (listed : key ∈ mount.keys)
    (older : List (Mount V)) :
    outline (mount :: older) key = (mount.owner, 1) :: outline older key := by
  rw [outline, List.filter_cons_of_pos (by simpa using listed)]
  rfl

theorem Mount.outline_cons_closed {mount : Mount V} {key : Key V} (absent : key ∉ mount.keys)
    (older : List (Mount V)) : outline (mount :: older) key = outline older key := by
  rw [outline, List.filter_cons_of_neg (by simpa using absent)]
  rfl

def Deed.drawn : Deed V → List Token
  | entered scope => [scope.token]
  | _ => []

/-- A close found a frame to remove, and the tally counter did not stop at zero. -/
def Deed.isSound : Deed V → Prop
  | closed _ _ answer => answer ≠ .notOpen ∧ answer ≠ .retained
  | left true before => 0 < before
  | _ => True

namespace Represents

variable [Client V σ] {mounts newer older : List (Mount V)} {hand : Hand V} {lends : List (Lend V)}
  {world : World V (Ledger V σ)}

theorem enter (represents : Represents mounts (⟨hand, lends, world⟩ : Scene V σ))
    (scope : Scope V) :
    Represents
      (⟨.numbered (world.thread.lastToken + 1), scope.interest.keys, scope.interest.tallies⟩ :: mounts)
      ⟨.scope (scope.enter world).1 ::ₘ hand, lends, (scope.enter world).2⟩ where
  listed := by
    rw [Hand.mounts_cons_some rfl, ← represents.listed, enter_apply]
    rfl
  recent := by
    refine List.pairwise_cons.2 ⟨fun mount listed => ?_, represents.recent⟩
    exact Nat.lt_succ_of_le (represents.drawn mount listed)
  drawn := by
    intro mount listed
    rw [enter_thread]
    rcases List.mem_cons.1 listed with rfl | listed
    · exact le_refl _
    · exact Nat.le_succ_of_le (represents.drawn mount listed)
  once := by
    intro mount listed
    rcases List.mem_cons.1 listed with rfl | listed
    · exact scope.interest.nodup_keys
    · exact represents.once mount listed
  framed := by
    rw [enter_thread]
    intro alive key
    have stored : world.thread.store ≠ none := by
      intro gone
      apply alive
      change (world.thread.openAll _ _).store = none
      rw [Thread.openAll_gone gone, gone]
    have framed := represents.framed stored key
    change ((world.thread.openAll _ _).stack key).outline = _
    by_cases listed : key ∈ scope.interest.keys
    · have apart : ∀ entry ∈ (world.thread.stack key).outline,
          entry.1 ≠ .numbered (world.thread.lastToken + 1) := by
        rw [framed]
        intro entry listed same
        obtain ⟨mount, kept, rfl⟩ := List.mem_map.1 listed
        have drawn : mount.owner.value ≤ world.thread.lastToken :=
          represents.drawn mount (List.mem_filter.1 kept).1
        rw [show mount.owner = _ from same, Token.value] at drawn
        omega
      rw [Thread.stack_openAll stored _ scope.interest.nodup_keys listed,
        Stack.outline_openFor apart, framed, Mount.outline_cons_open listed]
    · rw [Thread.stack_openAll_other _ listed, framed, Mount.outline_cons_closed listed]
  counted := by
    rw [enter_thread, List.countP_cons, ← represents.counted]

omit [Client V σ] in
/-- A mount that has closed some of its types, with stacks to match, is described by the rest. -/
theorem exchange {mount : Mount V} {scene later : Scene V σ}
    (represents : Represents (newer ++ mount :: older) scene) {keys : List (Key V)}
    (once : keys.Nodup)
    (mounted : later.hand.mounts = ↑(newer ++ ⟨mount.owner, keys, mount.tallies⟩ :: older))
    (drawn : later.world.thread.lastToken = scene.world.thread.lastToken)
    (counted : later.world.thread.tallying = scene.world.thread.tallying)
    (framed : later.world.thread.store ≠ none → ∀ key, (later.world.thread.stack key).outline =
      Mount.outline (newer ++ ⟨mount.owner, keys, mount.tallies⟩ :: older) key) :
    Represents (newer ++ ⟨mount.owner, keys, mount.tallies⟩ :: older) later where
  listed := mounted.symm
  recent := by
    have recent := represents.recent
    simp only [List.pairwise_append, List.pairwise_cons, List.mem_cons, forall_eq_or_imp] at recent ⊢
    exact recent
  drawn := by
    have known := represents.drawn
    rw [drawn]
    simp only [List.mem_append, List.mem_cons, or_imp, forall_and, forall_eq] at known ⊢
    exact known
  once := by
    have listed := represents.once
    simp only [List.mem_append, List.mem_cons, or_imp, forall_and, forall_eq] at listed ⊢
    exact ⟨listed.1, once, listed.2.2⟩
  framed := framed
  counted := by
    rw [counted, represents.counted]
    simp only [List.countP_append, List.countP_cons]

omit [Client V σ] in
theorem close {owner : Token} {key : Key V} {rest : List (Key V)} {tallies : Bool}
    (represents : Represents (newer ++ ⟨owner, key :: rest, tallies⟩ :: older)
      (⟨.closing owner (key :: rest) tallies ::ₘ hand, lends, world⟩ : Scene V σ))
    (others : ↑(newer ++ older) = hand.mounts) :
    Represents (newer ++ ⟨owner, rest, tallies⟩ :: older)
        (⟨.values (key.payloads (Slot.close key owner world).1.freed) +
          .closing owner rest tallies ::ₘ hand, lends, (Slot.close key owner world).2⟩ : Scene V σ) ∧
      (world.thread.store ≠ none →
        (Slot.close key owner world).1 ≠ .notOpen ∧ (Slot.close key owner world).1 ≠ .retained) := by
  have once := List.nodup_cons.1 (represents.once ⟨owner, key :: rest, tallies⟩ (by simp))
  have closes : world.thread.store ≠ none →
      ((world.thread.stack key).close owner).2.outline =
          Mount.outline newer key ++ Mount.outline older key ∧
        ((world.thread.stack key).close owner).1 ≠ .notOpen ∧
        ((world.thread.stack key).close owner).1 ≠ .retained := by
    intro stored
    refine Stack.outline_close (represents.apart key) ?_
    rw [represents.framed stored key, Mount.outline_append,
      Mount.outline_cons_open List.mem_cons_self]
  refine ⟨represents.exchange once.2 ?_ rfl rfl ?_, fun stored => (closes stored).2⟩
  · rw [Hand.mounts_add, Hand.mounts_values, zero_add, Hand.mounts_cons_some rfl, ← others]
    exact (Multiset.coe_eq_coe.2 List.perm_middle).symm
  · intro alive other
    have stored : world.thread.store ≠ none := by
      intro gone
      apply alive
      change (world.thread.setStack key _).store = none
      rw [Thread.setStack_gone gone, gone]
    change ((world.thread.setStack key ((world.thread.stack key).close owner).2).stack other).outline =
      _
    by_cases here : other = key
    · subst here
      rw [Thread.stack_setStack stored, (closes stored).1, Mount.outline_append,
        Mount.outline_cons_closed once.1]
    · have framed := represents.framed stored other
      rw [Thread.stack_setStack_other _ _ here, framed, Mount.outline_append, Mount.outline_append]
      by_cases listed : other ∈ rest
      · rw [Mount.outline_cons_open (List.mem_cons_of_mem key listed),
          Mount.outline_cons_open listed]
      · have absent : other ∉ key :: rest := by simp [here, listed]
        rw [Mount.outline_cons_closed absent, Mount.outline_cons_closed listed]

omit [Client V σ] in
theorem leave {owner : Token} {tallies : Bool}
    (represents : Represents (newer ++ ⟨owner, [], tallies⟩ :: older)
      (⟨.closing owner [] tallies ::ₘ hand, lends, world⟩ : Scene V σ))
    (others : ↑(newer ++ older) = hand.mounts) :
    Represents (newer ++ older) (⟨hand, lends, world.lessTallying tallies⟩ : Scene V σ) ∧
      (tallies = true → 0 < world.thread.tallying) := by
  have counted : world.thread.tallying =
      (newer ++ older).countP (·.tallies) + if tallies then 1 else 0 := by
    have counted := represents.counted
    rw [List.countP_append, List.countP_cons] at counted
    rw [List.countP_append]
    exact counted.trans (Nat.add_assoc _ _ _).symm
  have kept : (newer ++ older).Sublist (newer ++ ⟨owner, [], tallies⟩ :: older) :=
    List.Sublist.append_left (List.sublist_cons_self _ _) newer
  have remaining : ∀ {later : World V (Ledger V σ)}, later.thread.store = world.thread.store →
      later.thread.lastToken = world.thread.lastToken →
      later.thread.tallying = (newer ++ older).countP (·.tallies) →
      Represents (newer ++ older) (⟨hand, lends, later⟩ : Scene V σ) := by
    intro later stored drawn counted
    refine ⟨others, represents.recent.sublist kept, ?_, ?_, ?_, counted⟩
    · intro mount listed
      rw [drawn]
      exact represents.drawn mount (kept.subset listed)
    · exact fun mount listed => represents.once mount (kept.subset listed)
    · intro alive key
      have framed := represents.framed (by rwa [← stored]) key
      have same : later.thread.stack key = world.thread.stack key := by
        unfold Thread.stack
        rw [stored]
      rw [same, framed, Mount.outline_append, Mount.outline_append,
        Mount.outline_cons_closed List.not_mem_nil]
  cases tallies with
  | false => exact ⟨remaining rfl rfl counted, Bool.noConfusion⟩
  | true =>
      have reduced : world.thread.tallying - 1 = (newer ++ older).countP (·.tallies) := by
        rw [counted, if_pos rfl]
        omega
      exact ⟨remaining rfl rfl reduced, fun _ => by rw [counted, if_pos rfl]; omega⟩

omit [Client V σ] in
/-- A new stack of the same outline does not touch the description. -/
theorem restack (represents : Represents mounts (⟨hand, lends, world⟩ : Scene V σ)) {key : Key V}
    {stack : Stack key.Value} (same : stack.outline = (world.thread.stack key).outline)
    {others : Hand V} (mounted : others.mounts = hand.mounts) (loans : List (Lend V)) :
    Represents mounts (⟨others, loans,
      { world with thread := world.thread.setStack key stack }⟩ : Scene V σ) := by
  refine represents.keep mounted rfl rfl ?_ fun alive other => ?_
  · intro gone
    rw [Thread.setStack_gone gone]
    exact gone
  · have stored : world.thread.store ≠ none := by
      intro gone
      apply alive
      rw [Thread.setStack_gone gone]
      exact gone
    change ((world.thread.setStack key stack).stack other).outline = _
    by_cases here : other = key
    · subst here
      rw [Thread.stack_setStack stored, same]
    · rw [Thread.stack_setStack_other _ _ here]

omit [Client V σ] in
theorem rehand (represents : Represents mounts (⟨hand, lends, world⟩ : Scene V σ))
    {others : Hand V} (mounted : others.mounts = hand.mounts) (loans : List (Lend V)) :
    Represents mounts (⟨others, loans, world⟩ : Scene V σ) :=
  represents.keep mounted rfl rfl id fun _ _ => rfl

theorem step {first last : Scene V σ} {deed : Deed V} (represents : Represents mounts first)
    (does : Does first deed last) :
    ∃ later, Represents later last ∧
      (later.map Mount.owner).reverse.Sublist ((mounts.map Mount.owner).reverse ++ deed.drawn) ∧
      (last.world.thread.store ≠ none → deed.isSound) := by
  have still : Represents mounts last → deed.drawn = [] → deed.isSound →
      ∃ later, Represents later last ∧
        (later.map Mount.owner).reverse.Sublist ((mounts.map Mount.owner).reverse ++ deed.drawn) ∧
        (last.world.thread.store ≠ none → deed.isSound) := by
    intro kept none sound
    refine ⟨mounts, kept, ?_, fun _ => sound⟩
    rw [none, List.append_nil]
  -- a step that neither draws a token nor changes an outline keeps the mounts it found
  cases does with
  | other unmoved =>
      refine still (represents.keep rfl unmoved.lastToken unmoved.tallying ?_ ?_) rfl trivial
      · exact fun gone => unmoved.store.trans gone
      · exact fun _ key => by rw [unmoved.stack]
  | arm payloads | pack payloads =>
      refine still (represents.rehand ?_ _) rfl trivial
      rw [Hand.mounts_cons_none rfl, Hand.mounts_add, Hand.mounts_values, zero_add]
  | disarm payloads | unpack payloads =>
      refine still (represents.rehand ?_ _) rfl trivial
      rw [Hand.mounts_cons_none rfl, Hand.mounts_add, Hand.mounts_values, zero_add]
  | make payload =>
      refine still (represents.keep ?_ rfl rfl id fun _ _ => rfl) rfl trivial
      exact Hand.mounts_cons_none rfl _
  | finish payload =>
      refine still (represents.keep ?_ rfl rfl id fun _ _ => rfl) rfl trivial
      exact (Hand.mounts_cons_none rfl _).symm
  | enter scope =>
      refine ⟨_, represents.enter scope, ?_, fun _ => trivial⟩
      rw [List.map_cons, List.reverse_cons, enter_apply]
      exact List.Sublist.refl _
  | startLeaving scope =>
      obtain ⟨newer, older, rfl, others⟩ := represents.placed (Hand.mounts_cons_some rfl _)
      have reversed := scope.interest.nodup_keys
      rw [← List.nodup_reverse] at reversed
      refine ⟨_, represents.exchange reversed ?_ rfl rfl ?_, ?_, fun _ => trivial⟩
      · rw [Hand.mounts_cons_some rfl, ← others]
        exact (Multiset.coe_eq_coe.2 List.perm_middle).symm
      · intro alive key
        rw [represents.framed alive key]
        simp only [Mount.outline_eq, List.filter_append, List.filter_cons, List.mem_reverse]
        split <;> simp
      · simp [Deed.drawn]
  | @close hand lends world owner key rest tallies =>
      obtain ⟨newer, older, rfl, others⟩ := represents.placed (Hand.mounts_cons_some rfl _)
      obtain ⟨later, sound⟩ := represents.close others
      refine ⟨_, later, by simp [Deed.drawn], fun alive => sound fun gone => alive ?_⟩
      change (world.thread.setStack key _).store = none
      rw [Thread.setStack_gone gone, gone]
  | leave owner tallies =>
      obtain ⟨newer, older, rfl, others⟩ := represents.placed (Hand.mounts_cons_some rfl _)
      obtain ⟨later, sound⟩ := represents.leave others
      refine ⟨_, later, ?_, fun _ => ?_⟩
      · rw [show (Deed.left tallies _).drawn = ([] : List Token) from rfl, List.append_nil]
        refine (List.Sublist.map _ ?_).reverse
        exact List.Sublist.append_left (List.sublist_cons_self _ _) newer
      · cases tallies with
        | false => trivial
        | true => exact sound rfl
  | put key id value =>
      refine still (represents.restack (Stack.outline_put _ _ _) ?_ _) rfl trivial
      rw [Hand.mounts_add, Hand.mounts_values, zero_add, Hand.mounts_cons_none rfl]
  | take key id =>
      refine still (represents.restack (Stack.outline_takeFor _ _) ?_ _) rfl trivial
      rw [Hand.mounts_add, Hand.mounts_values, zero_add]
  | count name id =>
      refine still (represents.restack ?_ rfl _) rfl trivial
      exact Stack.outline_onTop (fun frame => by rfl) _
  | lend lend =>
      exact still (represents.restack (Stack.outline_takeFor _ _) rfl _) rfl trivial
  | giveBack lend =>
      refine still (represents.restack ?_ rfl _) rfl trivial
      exact Stack.outline_onFrame _ (fun frame => by rfl) _
  | keepBack lend =>
      exact still (represents.rehand (Hand.mounts_cons_none rfl _) _) rfl trivial
  | endStorage =>
      refine still ?_ rfl trivial
      refine represents.keep ?_ rfl rfl (fun _ => rfl) fun alive => absurd rfl alive
      rw [Hand.mounts_add, Hand.mounts_values, zero_add]

omit [Client V σ] in
/-- A thread that has waited for another is as it was. -/
theorem wait {given brought kept : Hand V}
    (represents : Represents mounts (⟨given + kept, lends, world⟩ : Scene V σ))
    (portable : ∀ holding ∈ given + brought, holding.isPortable = true)
    (later : World V (Ledger V σ)) :
    Represents mounts
      (⟨brought + kept, lends, { later with thread := world.thread }⟩ : Scene V σ) := by
  simp only [Multiset.mem_add, or_imp, forall_and] at portable
  refine represents.keep ?_ rfl rfl id fun _ _ => rfl
  rw [Hand.mounts_add, Hand.mounts_add, Hand.mounts_portable portable.1,
    Hand.mounts_portable portable.2]

theorem course {first last : Scene V σ} {deeds : List (Deed V)} (course : Course first deeds last)
    {mounts : List (Mount V)} (represents : Represents mounts first) :
    ∃ later, Represents later last ∧
      (later.map Mount.owner).reverse.Sublist
        ((mounts.map Mount.owner).reverse ++ deeds.flatMap Deed.drawn) ∧
      (last.world.thread.store ≠ none → ∀ deed ∈ deeds, deed.isSound) := by
  induction course generalizing mounts with
  | done => exact ⟨mounts, represents, by simp, by simp⟩
  | step does rest ih =>
      obtain ⟨middle, described, drawn, sound⟩ := represents.step does
      obtain ⟨later, final, further, lasting⟩ := ih described
      refine ⟨later, final, ?_, fun alive => ?_⟩
      · rw [List.flatMap_cons, ← List.append_assoc]
        exact further.trans (drawn.append_right _)
      · refine List.forall_mem_cons.2 ⟨sound fun gone => alive (rest.storage_gone gone), ?_⟩
        exact lasting alive
  | @thread given kept brought lends world later within deeds last portable inner ended rest _ ih =>
      obtain ⟨last, final, drawn, sound⟩ := ih (represents.wait portable later)
      refine ⟨last, final, ?_, fun alive deed listed => ?_⟩
      · have quiet : (within.map Deed.elsewhere).flatMap Deed.drawn = [] := by
          simp [List.flatMap_eq_nil_iff, Deed.drawn]
        rw [List.flatMap_append, quiet, List.nil_append]
        exact drawn
      · rcases List.mem_append.1 listed with listed | listed
        · obtain ⟨deed, _, rfl⟩ := List.mem_map.1 listed
          trivial
        · exact sound alive deed listed

end Represents

def Holding.isClosing : Holding V → Bool
  | closing _ _ _ => true
  | value _ | guard _ | parcel _ | scope _ => false

def Holding.scope? : Holding V → Option (OpenScope V)
  | scope opened => some opened
  | value _ | guard _ | parcel _ | closing _ _ _ => none

/-- The scopes in hand that nobody is leaving. -/
def Hand.scopes (hand : Hand V) : Multiset (OpenScope V) := hand.filterMap Holding.scope?

def Mount.of (scope : OpenScope V) : Mount V := ⟨scope.token, scope.interest.keys, scope.tallies⟩

theorem Hand.mounts_settled {hand : Hand V}
    (settled : ∀ holding ∈ hand, holding.isClosing = false) :
    Hand.mounts hand = (Hand.scopes hand).map .of := by
  induction hand using Multiset.induction_on with
  | empty => rfl
  | cons holding rest ih =>
      have tail := ih fun other listed => settled other (Multiset.mem_cons_of_mem listed)
      have head := settled holding (Multiset.mem_cons_self holding rest)
      cases holding with
      | value | guard | parcel =>
          rw [mounts_cons_none rfl, tail, scopes, scopes, Multiset.filterMap_cons_none _ _ rfl]
      | scope opened =>
          have counted : scopes (.scope opened ::ₘ rest) = opened ::ₘ scopes rest :=
            Multiset.filterMap_cons_some _ _ _ rfl
          rw [mounts_cons_some rfl, tail, counted, Multiset.map_cons]
          rfl
      | closing => cases head

/-- The scopes of a thread between two operations, the most recent first, with the stacks and the
counter that belong to them. -/
structure Mounted (deeds : List (Deed V)) (live : List (OpenScope V)) (scene : Scene V σ) :
    Prop where
  inHand : ↑live = scene.hand.scopes
  activation : (live.map OpenScope.token).reverse.Sublist (deeds.flatMap Deed.drawn)
  distinct : (live.map OpenScope.token).Nodup
  framed (key : Key V) : (scene.world.thread.stack key).outline =
    (live.filter (key ∈ ·.interest.keys)).map fun scope => (scope.token, 1)
  owners (key : Key V) : ((scene.world.thread.stack key).frames.map Frame.owner).Nodup
  deep (key : Key V) : Slot.depth key scene.world =
    (live.countP (key ∈ ·.interest.keys), scene.world)
  counted : scene.world.thread.tallying = live.countP (·.interest.tallies)
  sound : ∀ deed ∈ deeds, deed.isSound

/-- Scopes in hand count for the tally just when one of their types asks for it. -/
def Hand.areFlagged (hand : Hand V) : Prop :=
  ∀ opened, Holding.scope opened ∈ hand → opened.tallies = opened.interest.tallies

theorem Hand.scope_not_mem_values (opened : OpenScope V) (payloads : List (Payload V)) :
    Holding.scope opened ∉ Hand.values payloads := by
  intro listed
  obtain ⟨payload, _, same⟩ := List.mem_map.1 (Multiset.mem_coe.1 listed)
  cases same

section Runs

variable [Client V σ]

theorem Does.flagged {first last : Scene V σ} {deed : Deed V} (does : Does first deed last)
    (flagged : first.hand.areFlagged) : last.hand.areFlagged := by
  intro opened listed
  cases does with
  | enter scope =>
      rcases Multiset.mem_cons.1 listed with same | listed
      · cases same
        rw [enter_apply]
      · exact flagged opened listed
  | other | count | lend | giveBack => exact flagged opened listed
  | finish | leave => exact flagged opened (Multiset.mem_cons_of_mem listed)
  | startLeaving =>
      refine flagged opened (Multiset.mem_cons_of_mem ?_)
      simpa using listed
  | arm | disarm | pack | unpack | make | close | put | take | keepBack | endStorage =>
      refine flagged opened ?_
      simpa [Hand.scope_not_mem_values] using listed

theorem Course.flagged {first last : Scene V σ} {deeds : List (Deed V)}
    (course : Course first deeds last) (flagged : first.hand.areFlagged) :
    last.hand.areFlagged := by
  induction course with
  | done => exact flagged
  | step does _ ih => exact ih (does.flagged flagged)
  | thread portable _ _ _ _ ih =>
      refine ih fun opened listed => flagged opened ?_
      rcases Multiset.mem_add.1 listed with brought | kept
      · cases portable _ (Multiset.mem_add.2 (.inr brought))
      · exact Multiset.mem_add.2 (.inr kept)

omit [Client V σ] in
theorem Represents.mounted {mounts : List (Mount V)} {scene : Scene V σ} {deeds : List (Deed V)}
    (represents : Represents mounts scene)
    (drawn : (mounts.map Mount.owner).reverse.Sublist (deeds.flatMap Deed.drawn))
    (sound : ∀ deed ∈ deeds, deed.isSound) (alive : scene.world.thread.store ≠ none)
    (settled : ∀ holding ∈ scene.hand, holding.isClosing = false)
    (flagged : scene.hand.areFlagged) : ∃ live, Mounted deeds live scene := by
  obtain ⟨scopes, inHand⟩ := Quotient.exists_rep scene.hand.scopes
  have permuted : List.Perm mounts (scopes.map Mount.of) := by
    apply Multiset.coe_eq_coe.1
    rw [represents.listed, Hand.mounts_settled settled, ← inHand]
    rfl
  obtain ⟨live, rfl, same⟩ : ∃ live : List (OpenScope V), mounts = live.map Mount.of ∧
      live.Perm scopes := by
    have composed := congrFun (congrFun (List.eq_map_comp_perm (Mount.of (V := V))) mounts) scopes
    exact composed.mpr permuted
  have owners : (live.map Mount.of).map Mount.owner = live.map OpenScope.token := by
    rw [List.map_map]
    rfl
  have distinct : (live.map OpenScope.token).Nodup := by
    rw [← owners]
    refine (List.pairwise_map.2 (represents.recent.imp ?_))
    intro later earlier less equal
    rw [equal] at less
    exact lt_irrefl _ less
  have framed : ∀ key : Key V, (scene.world.thread.stack key).outline =
      (live.filter (key ∈ ·.interest.keys)).map fun scope => (scope.token, 1) := by
    intro key
    rw [represents.framed alive key, Mount.outline_eq, List.filter_map, List.map_map]
    rfl
  refine ⟨live, ⟨?_, ?_, distinct, framed, represents.owners_nodup, fun key => ?_, ?_, sound⟩⟩
  · rw [← inHand]
    exact Multiset.coe_eq_coe.2 same
  · rwa [owners] at drawn
  · rw [Slot.depth_apply, Stack.depth_eq_length, framed key, List.length_map,
      List.countP_eq_length_filter]
  · rw [represents.counted, List.countP_map]
    refine List.countP_congr fun scope listed => ?_
    have held : Holding.scope scope ∈ scene.hand := by
      have member : scope ∈ scene.hand.scopes := by
        rw [← inHand]
        exact Multiset.mem_coe.2 (same.subset listed)
      obtain ⟨holding, inside, found⟩ := (Multiset.mem_filterMap _ _).1 member
      cases holding with
      | scope opened => cases found; exact inside
      | value | guard | parcel | closing => cases found
    have flag : scope.tallies = scope.interest.tallies := flagged scope held
    simp [Mount.of, flag]

theorem Linear.settled {α : Type} {before after : Hand V} {act : Act V (Ledger V σ) α}
    {world : World V (Ledger V σ)} {deeds : List (Deed V)}
    (linear : Linear before act world deeds after)
    (settled : ∀ holding ∈ before, holding.isClosing = false) :
    ∀ holding ∈ after, holding.isClosing = false := by
  have forall_cons : ∀ {holding : Holding V} {hand : Hand V},
      (∀ other ∈ holding ::ₘ hand, other.isClosing = false) ↔
        holding.isClosing = false ∧ ∀ other ∈ hand, other.isClosing = false := by simp
  have forall_add : ∀ {first second : Hand V},
      (∀ other ∈ first + second, other.isClosing = false) ↔
        (∀ other ∈ first, other.isClosing = false) ∧ ∀ other ∈ second, other.isClosing = false := by
    intro first second
    simp only [Multiset.mem_add, or_imp, forall_and]
  have values : ∀ payloads : List (Payload V), ∀ holding ∈ Hand.values payloads,
      holding.isClosing = false := by
    intro payloads holding listed
    obtain ⟨payload, _, rfl⟩ := List.mem_map.1 (Multiset.mem_coe.1 listed)
    rfl
  induction linear with
  | idle | lendNothing | count => exact settled
  | bind _ _ _ first second => exact second (first settled)
  | skip _ _ first => exact first settled
  | attempt _ body => exact body settled
  | cleanup _ _ _ body cleaning => exact cleaning (body settled)
  | passed _ _ body => exact body settled
  | supplied _ _ _ body => exact body settled
  | make | enter => exact forall_cons.2 ⟨rfl, settled⟩
  | take => exact forall_add.2 ⟨values _, settled⟩
  | release _ ih => exact ih (forall_cons.1 settled).2
  | record _ ih | recordEnding _ ih =>
      exact ih (forall_add.2 ⟨values _, (forall_cons.1 settled).2⟩)
  | lendAborted _ _ _ body | lendBack _ _ _ _ body => exact body settled
  | lendOver _ _ _ _ _ body ends => exact ends (forall_cons.2 ⟨rfl, body settled⟩)
  | leave => exact (forall_cons.1 settled).2
  | close | left => cases (forall_cons.1 settled).1
  | arm payloads => exact forall_cons.2 ⟨rfl, (forall_add.1 settled).2⟩
  | dismiss _ _ ih | drop _ _ ih | unpack _ ih | dropParcel _ ih =>
      exact ih (forall_add.2 ⟨values _, (forall_cons.1 settled).2⟩)
  | keep _ ih => exact ih (forall_cons.2 ⟨rfl, settled⟩)
  | collect _ ih => exact forall_cons.2 ⟨rfl, (forall_add.1 (ih settled)).2⟩
  | endStorage _ ih => exact ih (forall_add.2 ⟨values _, settled⟩)
  | spawn portable _ _ _ _ _ =>
      refine forall_add.2 ⟨fun holding listed => ?_, (forall_add.1 settled).2⟩
      have allowed := portable holding (Multiset.mem_add.2 (.inr listed))
      cases holding with
      | value | parcel => rfl
      | guard | scope | closing => cases allowed

theorem Course.mounted {given : Hand V} {world : World V (Ledger V σ)} {deeds : List (Deed V)}
    {scene : Scene V σ} (course : Course ⟨given, [], world⟩ deeds scene)
    (fresh : world.thread = .fresh V) (portable : ∀ holding ∈ given, holding.isPortable = true)
    (alive : scene.world.thread.store ≠ none)
    (settled : ∀ holding ∈ scene.hand, holding.isClosing = false) :
    ∃ live, Mounted deeds live scene := by
  have start : Represents [] (⟨given, [], world⟩ : Scene V σ) := .fresh fresh portable
  obtain ⟨mounts, represents, drawn, sound⟩ := start.course course
  refine represents.mounted ?_ (sound alive) alive settled (course.flagged ?_)
  · simpa using drawn
  · intro opened listed
    cases portable _ listed

/-- After a linear program on a fresh thread, and after any course on a fresh thread that still has
its storage and is leaving no scope, the frames of every type are those of the live scopes that have
it open. -/
theorem live_scopes_are_mounted {α : Type} {act : Act V (Ledger V σ) α} {given hand : Hand V}
    {world : World V (Ledger V σ)} {deeds : List (Deed V)} (fresh : world.thread = .fresh V)
    (portable : ∀ holding ∈ given, holding.isPortable = true)
    (linear : Linear given act world deeds hand) :
    (∃ lends, Course ⟨given, [], world⟩ deeds ⟨hand, lends, (act world).2⟩ ∧
      ((act world).2.thread.store ≠ none →
        ∃ live, Mounted deeds live ⟨hand, lends, (act world).2⟩)) ∧
    ∀ (deeds : List (Deed V)) (scene : Scene V σ), Course ⟨given, [], world⟩ deeds scene →
      scene.world.thread.store ≠ none → (∀ holding ∈ scene.hand, holding.isClosing = false) →
      ∃ live, Mounted deeds live scene := by
  refine ⟨?_, fun deeds scene course alive settled => course.mounted fresh portable alive settled⟩
  obtain ⟨still, course, _⟩ := linear.settles []
  refine ⟨still ++ [], course, fun alive => course.mounted fresh portable alive ?_⟩
  refine linear.settled fun holding listed => ?_
  have allowed := portable holding listed
  cases holding with
  | value | parcel => rfl
  | guard | scope | closing => cases allowed

end Runs

/-- The scope that is left in hand, opened second, is the one that the frames belong to. -/
theorem overlapping_scopes_are_mounted :
    ∃ deeds lends live,
      Linear 0 Scenario.interlude Scenario.dawn deeds
        {.scope ⟨Scenario.innerScope.interest, .numbered 2, false⟩} ∧
      Mounted deeds live
        ⟨{.scope ⟨Scenario.innerScope.interest, .numbered 2, false⟩}, lends,
          (Scenario.interlude Scenario.dawn).2⟩ := by
  obtain ⟨deeds, linear⟩ := Scenario.interlude_linear
  obtain ⟨⟨lends, _, mounted⟩, _⟩ := live_scopes_are_mounted rfl (by simp) linear
  have alive : (Scenario.interlude Scenario.dawn).2.thread.store ≠ none := by decide +kernel
  obtain ⟨live, mounted⟩ := mounted alive
  exact ⟨deeds, lends, live, linear, mounted⟩

end FaultRelay

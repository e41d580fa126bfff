import FaultRelay.Proofs.Echo
import FaultRelay.Proofs.Stretch

/-! The timeline of a payload type along a course, and why the last write wins: whatever the order of
the closes, the values of a stack descend in age from the outermost frame to the innermost, and a
value only ever gives way to a younger one. -/
namespace FaultRelay

variable {V : Vocabulary} {σ : Type}

def Lend.of? (key : Key V) (lend : Lend V) : Option (Token × Nat × key.Value) :=
  if same : lend.key = key then some (lend.owner, lend.id, same ▸ lend.value) else none

/-- The value of type `key` that a deed of the thread recorded. -/
def Deed.recorded? (key : Key V) : Deed V → Option key.Value
  | put type _ value _ => if same : type = key then some (same ▸ value) else none
  | _ => none

def Loan.plain {α : Type} (loan : Loan α) : Token × Nat × α :=
  (loan.owner, loan.id, loan.stamped.value)

namespace Timeline

def after (key : Key V) (line : Timeline key.Value) : Deed V → Timeline key.Value
  | .entered scope =>
      if scope.interest.keys.contains key then line.openFor scope.token else line
  | .closed other owner _ => if other = key then line.close owner else line
  | .put other id value _ => if same : other = key then line.record id (same ▸ value) else line
  | .taken other id _ => if other = key then line.take id else line
  | .lent lend => if lend.key = key then line.lend lend.owner lend.id else line
  | .returned lend _ => if lend.key = key then line.giveBack else line
  | .storageEnded _ => line.endStorage
  | _ => line

def of (key : Key V) (deeds : List (Deed V)) : Timeline key.Value := deeds.foldl (after key) .start

theorem records_openFor {α : Type} (owner : Token) (line : Timeline α) :
    (line.openFor owner).records = line.records := by
  unfold openFor
  split <;> rfl

theorem records_lend {α : Type} (owner : Token) (id : Nat) (line : Timeline α) :
    (line.lend owner id).records = line.records := by
  unfold Timeline.lend
  split <;> rfl

theorem records_giveBack {α : Type} (line : Timeline α) :
    line.giveBack.records = line.records := by
  unfold giveBack
  split
  · rfl
  · split
    · rfl
    · split <;> rfl

theorem records_after (key : Key V) (line : Timeline key.Value) (deed : Deed V) :
    (line.after key deed).records.map Stamped.value =
      (deed.recorded? key).toList ++ line.records.map Stamped.value := by
  cases deed with
  | put type id value answer =>
      by_cases same : type = key
      · subst same
        simp [after, Deed.recorded?, record, stamp]
      · simp [after, Deed.recorded?, same]
  | entered | lent | returned | closed | taken =>
      simp only [after]
      split <;> simp [Deed.recorded?, records_openFor, records_lend, records_giveBack, close, take]
  | storageEnded => rfl
  | other | made | ended | leaving | left | counted | elsewhere => rfl

theorem records_foldl (key : Key V) (deeds : List (Deed V)) (line : Timeline key.Value) :
    (deeds.foldl (after key) line).records.map Stamped.value =
      (deeds.filterMap (Deed.recorded? key)).reverse ++ line.records.map Stamped.value := by
  induction deeds generalizing line with
  | nil => rfl
  | cons deed rest ih =>
      rw [List.foldl_cons, ih, records_after]
      cases recorded : deed.recorded? key <;> simp [recorded]

/-- Without its stamps the timeline is what the thread has. -/
structure Annotates (key : Key V) (line : Timeline key.Value) (scene : Scene V σ) : Prop where
  stack : line.stack.map Stamped.value = scene.world.thread.stack key
  alive : line.alive = scene.world.thread.store.isSome
  loans : line.loans.map Loan.plain = scene.lends.filterMap (Lend.of? key)

section Annotation

variable {key other : Key V} {line later : Timeline key.Value} {hand hands : Hand V}
  {lends fewer : List (Lend V)} {world next : World V (Ledger V σ)}

theorem Annotates.unmoved (annotates : Annotates key line (⟨hand, lends, world⟩ : Scene V σ))
    (store : next.thread.store = world.thread.store) :
    Annotates key line (⟨hands, lends, next⟩ : Scene V σ) where
  stack := by
    have same : next.thread.stack key = world.thread.stack key := by
      unfold Thread.stack
      rw [store]
    rw [annotates.stack, same]
  alive := by rw [annotates.alive, store]
  loans := annotates.loans

theorem Annotates.elsewhere (annotates : Annotates key line (⟨hand, lends, world⟩ : Scene V σ))
    (differ : key ≠ other) {stack : Stack other.Value}
    (thread : next.thread = world.thread.setStack other stack)
    (loans : fewer.filterMap (Lend.of? key) = lends.filterMap (Lend.of? key)) :
    Annotates key line (⟨hands, fewer, next⟩ : Scene V σ) where
  stack := by rw [annotates.stack, thread, Thread.stack_setStack_other _ _ differ]
  alive := by rw [annotates.alive, thread, Thread.setStack, Option.isSome_map]
  loans := annotates.loans.trans loans.symm

/-- A stack operation that leaves an empty stack empty is followed by the same operation on stamped
values. -/
theorem Annotates.follow (annotates : Annotates key line (⟨hand, lends, world⟩ : Scene V σ))
    {stack : Stack key.Value} (thread : next.thread = world.thread.setStack key stack)
    (empty : world.thread.stack key = .empty → stack = .empty)
    (same : later.stack.map Stamped.value = stack) (alive : later.alive = line.alive)
    (loans : later.loans.map Loan.plain = fewer.filterMap (Lend.of? key)) :
    Annotates key later (⟨hands, fewer, next⟩ : Scene V σ) where
  stack := by
    rw [same, thread]
    by_cases gone : world.thread.store = none
    · rw [Thread.setStack_gone gone, Thread.stack_gone gone, empty (Thread.stack_gone gone key)]
    · rw [Thread.stack_setStack gone]
  alive := by rw [alive, annotates.alive, thread, Thread.setStack, Option.isSome_map]
  loans := loans

theorem Annotates.top (annotates : Annotates key line (⟨hand, lends, world⟩ : Scene V σ))
    {top : Frame key.Value} (innermost : (world.thread.stack key).top? = some top) :
    ∃ inner, line.stack.top? = some inner ∧ inner.map Stamped.value = top := by
  rw [← annotates.stack, Stack.top?, Stack.map, List.head?_map] at innermost
  exact Option.map_eq_some_iff.1 innermost

end Annotation

section Steps

variable [Client V σ] {key : Key V} {line : Timeline key.Value} {first last : Scene V σ}
  {hand : Hand V} {lends : List (Lend V)} {world : World V (Ledger V σ)} {deed : Deed V}

def Continues (key : Key V) (line : Timeline key.Value) (first : Scene V σ) (deed : Deed V)
    (last : Scene V σ) : Prop :=
  Annotates key (line.after key deed) last ∧
    line.Moves first.world.thread.lastToken last.world.thread.lastToken (line.after key deed)

theorem continues_enter (annotates : Annotates key line (⟨hand, lends, world⟩ : Scene V σ))
    (sound : line.Sound world.thread.lastToken) (scope : Scope V) :
    Continues key line ⟨hand, lends, world⟩ (.entered (scope.enter world).1)
      ⟨.scope (scope.enter world).1 ::ₘ hand, lends, (scope.enter world).2⟩ := by
  have fresh : (scope.enter world).1 =
      ⟨scope.interest, .numbered (world.thread.lastToken + 1), scope.interest.tallies⟩ := by
    rw [enter_apply]
  have drawn : (scope.enter world).2.thread.lastToken = world.thread.lastToken + 1 := by
    rw [enter_thread]
  have stack : (scope.enter world).2.thread.stack key =
      (world.thread.openAll (.numbered (world.thread.lastToken + 1))
        scope.interest.keys).stack key := by
    rw [enter_thread]
    rfl
  have store : (scope.enter world).2.thread.store =
      (world.thread.openAll (.numbered (world.thread.lastToken + 1)) scope.interest.keys).store := by
    rw [enter_thread]
  have alive : (scope.enter world).2.thread.store.isSome = world.thread.store.isSome := by
    rw [store]
    by_cases gone : world.thread.store = none
    · rw [Thread.openAll_gone gone]
    · rw [Option.isSome_iff_ne_none.2 gone,
        Option.isSome_iff_ne_none.2 (Thread.openAll_alive gone _ _)]
  unfold Continues
  rw [drawn]
  change Annotates key (if (scope.enter world).1.interest.keys.contains key then _ else _) _ ∧ _
  change _ ∧ line.Moves _ _ (if (scope.enter world).1.interest.keys.contains key then _ else _)
  rw [fresh]
  by_cases listed : key ∈ scope.interest.keys
  · rw [if_pos (List.contains_iff_mem.2 listed)]
    refine ⟨⟨?_, ?_, ?_⟩, sound.moves_openFor rfl⟩
    · rw [stack]
      unfold openFor
      by_cases gone : world.thread.store = none
      · have dead : line.alive = false := by rw [annotates.alive, gone]; rfl
        rw [if_neg (by simp [dead]), annotates.stack, Thread.openAll_gone gone]
      · have living : line.alive = true := by
          rw [annotates.alive]
          exact Option.isSome_iff_ne_none.2 gone
        rw [if_pos living, Thread.stack_openAll gone _ scope.interest.nodup_keys listed,
          ← annotates.stack, Stack.map_openFor]
    · rw [alive, ← annotates.alive]
      unfold openFor
      split <;> rfl
    · refine Eq.trans ?_ annotates.loans
      unfold openFor
      split <;> rfl
  · rw [if_neg (fun found => listed (List.contains_iff_mem.1 found))]
    refine ⟨⟨?_, annotates.alive.trans alive.symm, annotates.loans⟩, sound.idles (Nat.le_succ _)⟩
    rw [stack, Thread.stack_openAll_other _ listed]
    exact annotates.stack

omit [Client V σ] in
theorem continues_elsewhere (annotates : Annotates key line (⟨hand, lends, world⟩ : Scene V σ))
    (sound : line.Sound world.thread.lastToken) {other : Key V} (differ : key ≠ other)
    {stack : Stack other.Value} {hands : Hand V} {fewer : List (Lend V)}
    {next : World V (Ledger V σ)} (thread : next.thread = world.thread.setStack other stack)
    (loans : fewer.filterMap (Lend.of? key) = lends.filterMap (Lend.of? key))
    (idle : line.after key deed = line) :
    Continues key line ⟨hand, lends, world⟩ deed ⟨hands, fewer, next⟩ := by
  unfold Continues
  rw [idle]
  refine ⟨annotates.elsewhere differ thread loans, sound.idles ?_⟩
  rw [thread]
  exact le_refl _

omit [Client V σ] in
theorem continues_close (annotates : Annotates key line (⟨hand, lends, world⟩ : Scene V σ))
    (sound : line.Sound world.thread.lastToken) (other : Key V) (owner : Token) (hands : Hand V) :
    Continues key line ⟨hand, lends, world⟩ (.closed other owner (Slot.close other owner world).1)
      ⟨hands, lends, (Slot.close other owner world).2⟩ := by
  by_cases same : other = key
  · subst same
    have follows : line.after other (.closed other owner (Slot.close other owner world).1) =
        line.close owner := if_pos rfl
    unfold Continues
    rw [follows]
    refine ⟨annotates.follow rfl ?_ ?_ rfl annotates.loans, sound.moves_close owner⟩
    · intro empty
      rw [empty]
      rfl
    · rw [← annotates.stack]
      exact Stack.map_close Stamped.value owner line.stack
  · exact continues_elsewhere annotates sound (Ne.symm same) rfl rfl (if_neg same)

omit [Client V σ] in
theorem continues_put (annotates : Annotates key line (⟨hand, lends, world⟩ : Scene V σ))
    (sound : line.Sound world.thread.lastToken) (other : Key V) (id : Nat) (value : other.Value)
    (hands : Hand V) :
    Continues key line ⟨hand, lends, world⟩ (.put other id value (Slot.put other id value world).1)
      ⟨hands, lends, (Slot.put other id value world).2⟩ := by
  by_cases same : other = key
  · subst same
    have follows : line.after other (.put other id value (Slot.put other id value world).1) =
        line.record id value := dif_pos rfl
    unfold Continues
    rw [follows]
    refine ⟨annotates.follow rfl ?_ ?_ rfl annotates.loans, sound.moves_record id value⟩
    · intro empty
      rw [empty]
      rfl
    · rw [← annotates.stack]
      exact Stack.map_put Stamped.value id (line.stamp value) line.stack
  · exact continues_elsewhere annotates sound (Ne.symm same) rfl rfl (dif_neg same)

omit [Client V σ] in
theorem continues_take (annotates : Annotates key line (⟨hand, lends, world⟩ : Scene V σ))
    (sound : line.Sound world.thread.lastToken) (other : Key V) (id : Nat) (hands : Hand V) :
    Continues key line ⟨hand, lends, world⟩ (.taken other id (Slot.takeFor other id world).1)
      ⟨hands, lends, (Slot.takeFor other id world).2⟩ := by
  by_cases same : other = key
  · subst same
    have follows : line.after other (.taken other id (Slot.takeFor other id world).1) =
        line.take id := if_pos rfl
    unfold Continues
    rw [follows]
    refine ⟨annotates.follow rfl ?_ ?_ rfl annotates.loans, sound.moves_take id⟩
    · intro empty
      rw [empty]
      rfl
    · rw [← annotates.stack]
      exact Stack.map_takeFor Stamped.value id line.stack
  · exact continues_elsewhere annotates sound (Ne.symm same) rfl rfl (if_neg same)

omit [Client V σ] in
theorem filterMap_of?_other {lend : Lend V} (differ : lend.key ≠ key) (lends : List (Lend V)) :
    (lend :: lends).filterMap (Lend.of? key) = lends.filterMap (Lend.of? key) :=
  List.filterMap_cons_none (dif_neg differ)

omit [Client V σ] in
theorem continues_lendOf (annotates : Annotates key line (⟨hand, lends, world⟩ : Scene V σ))
    (sound : line.Sound world.thread.lastToken) {owner : Token} {id : Nat} {value : key.Value}
    {top : Frame key.Value} (innermost : (world.thread.stack key).top? = some top)
    (theirs : top.owner = owner) (held : (world.thread.stack key).valueFor id = some value) :
    Annotates key (line.lend owner id)
        (⟨hand, ⟨key, owner, id, value⟩ :: lends, (Slot.takeFor key id world).2⟩ : Scene V σ) ∧
      line.Moves world.thread.lastToken world.thread.lastToken (line.lend owner id) := by
  obtain ⟨inner, found, rfl⟩ := annotates.top innermost
  obtain rfl : inner.owner = owner := theirs
  rw [← annotates.stack, Stack.map_valueFor] at held
  obtain ⟨stamped, taken, rfl⟩ := Option.map_eq_some_iff.1 held
  have lent : line.lend inner.owner id =
      { line with
        stack := (line.stack.takeFor id).2
        loans := ⟨inner.owner, id, stamped⟩ :: line.loans } := by
    unfold Timeline.lend
    rw [show (line.stack.takeFor id).1 = some stamped from taken]
  refine ⟨?_, sound.moves_lend found id⟩
  rw [lent]
  refine annotates.follow rfl ?_ ?_ rfl ?_
  · intro empty
    rw [empty]
    rfl
  · rw [← annotates.stack]
    exact Stack.map_takeFor Stamped.value id line.stack
  · have plain : Lend.of? key (⟨key, inner.owner, id, stamped.value⟩ : Lend V) =
        some (inner.owner, id, stamped.value) := dif_pos rfl
    rw [List.filterMap_cons_some plain, List.map_cons, annotates.loans]
    rfl

omit [Client V σ] in
theorem continues_lend (annotates : Annotates key line (⟨hand, lends, world⟩ : Scene V σ))
    (sound : line.Sound world.thread.lastToken) (lend : Lend V) {top : Frame lend.key.Value}
    (innermost : (world.thread.stack lend.key).top? = some top) (theirs : top.owner = lend.owner)
    (held : (world.thread.stack lend.key).valueFor lend.id = some lend.value) :
    Continues key line ⟨hand, lends, world⟩ (.lent lend)
      ⟨hand, lend :: lends, (Slot.takeFor lend.key lend.id world).2⟩ := by
  by_cases same : lend.key = key
  · obtain ⟨other, owner, id, value⟩ := lend
    obtain rfl : other = key := same
    have follows : line.after other (.lent ⟨other, owner, id, value⟩) = line.lend owner id :=
      if_pos rfl
    unfold Continues
    rw [follows]
    exact continues_lendOf annotates sound innermost theirs held
  · exact continues_elsewhere annotates sound (Ne.symm same) rfl (filterMap_of?_other same lends)
      (if_neg same)

omit [Client V σ] in
/-- Where the timeline has the loans of the scene, the last lend of the type is its first loan. -/
theorem Annotates.first_loan {owner : Token} {id : Nat} {value : key.Value}
    (annotates : Annotates key line
      (⟨hand, ⟨key, owner, id, value⟩ :: lends, world⟩ : Scene V σ)) :
    ∃ stamped rest, line.loans = ⟨owner, id, stamped⟩ :: rest ∧ stamped.value = value ∧
      rest.map Loan.plain = lends.filterMap (Lend.of? key) := by
  have loans := annotates.loans
  have plain : Lend.of? key (⟨key, owner, id, value⟩ : Lend V) = some (owner, id, value) :=
    dif_pos rfl
  rw [List.filterMap_cons_some plain] at loans
  obtain ⟨⟨_, _, stamped⟩, rest, shape, first, others⟩ := List.map_eq_cons_iff.1 loans
  cases first
  exact ⟨stamped, rest, shape, rfl, others⟩

omit [Client V σ] in
theorem continues_giveBackOf {owner : Token} {id : Nat} {value : key.Value}
    (annotates : Annotates key line
      (⟨hand, ⟨key, owner, id, value⟩ :: lends, world⟩ : Scene V σ))
    (welcome : Lend.isWelcome ⟨key, owner, id, value⟩ world = true) :
    Annotates key line.giveBack
      (⟨hand, lends, Lend.giveBack ⟨key, owner, id, value⟩ world⟩ : Scene V σ) := by
  obtain ⟨stamped, rest, loans, rfl, others⟩ := annotates.first_loan
  obtain ⟨frame, found, empty⟩ := Lend.isWelcome_iff.1 welcome
  change (world.thread.stack key).frameOf? owner = some frame at found
  rw [← annotates.stack, Stack.map_frameOf?] at found
  obtain ⟨inner, there, rfl⟩ := Option.map_eq_some_iff.1 found
  have nothing : inner.value? = none := by
    unfold Frame.value?
    rw [Option.map_eq_none_iff]
    exact Option.map_eq_none_iff.1 empty
  have returned : line.giveBack =
      { line with stack := line.stack.onFrame owner (·.put id stamped), loans := rest } := by
    unfold giveBack
    simp only [loans, there, nothing]
  rw [returned]
  refine annotates.follow rfl ?_ ?_ rfl others
  · intro empty
    change (world.thread.stack key).onFrame owner _ = _
    rw [empty]
    rfl
  · change _ = (world.thread.stack key).onFrame owner (·.put id stamped.value)
    rw [← annotates.stack]
    exact Stack.map_onFrame Stamped.value owner id stamped line.stack

omit [Client V σ] in
theorem continues_keepBackOf {owner : Token} {id : Nat} {value : key.Value} {hands : Hand V}
    (annotates : Annotates key line
      (⟨hand, ⟨key, owner, id, value⟩ :: lends, world⟩ : Scene V σ))
    (unwelcome : Lend.isWelcome ⟨key, owner, id, value⟩ world = false) :
    Annotates key line.giveBack (⟨hands, lends, world⟩ : Scene V σ) := by
  obtain ⟨stamped, rest, loans, rfl, others⟩ := annotates.first_loan
  have kept : line.giveBack.stack = line.stack ∧ line.giveBack.loans = rest ∧
      line.giveBack.alive = line.alive := by
    unfold giveBack
    rcases there : line.stack.frameOf? owner with _ | inner
    · simp only [loans, there, and_self]
    · rcases held : inner.value? with _ | other
      · have welcome : Lend.isWelcome ⟨key, owner, id, stamped.value⟩ world = true := by
          refine Lend.isWelcome_iff.2 ⟨inner.map Stamped.value, ?_, ?_⟩
          · change (world.thread.stack key).frameOf? owner = _
            rw [← annotates.stack, Stack.map_frameOf?, there]
            rfl
          · exact Option.map_eq_none_iff.2 (Option.map_eq_none_iff.1 held)
        rw [welcome] at unwelcome
        cases unwelcome
      · simp only [loans, there, held, and_self]
  obtain ⟨stack, loans, alive⟩ := kept
  exact ⟨by rw [stack]; exact annotates.stack, by rw [alive]; exact annotates.alive,
    by rw [loans]; exact others⟩

omit [Client V σ] in
theorem continues_return {lend : Lend V} {accepted : Bool} {hands : Hand V}
    {next : World V (Ledger V σ)}
    (sound : line.Sound world.thread.lastToken)
    (drawn : next.thread.lastToken = world.thread.lastToken)
    (theirs : lend.key = key → Annotates key line.giveBack (⟨hands, lends, next⟩ : Scene V σ))
    (others : lend.key ≠ key → Annotates key line (⟨hands, lends, next⟩ : Scene V σ)) :
    Continues key line ⟨hand, lend :: lends, world⟩ (.returned lend accepted)
      ⟨hands, lends, next⟩ := by
  unfold Continues
  rw [drawn]
  by_cases same : lend.key = key
  · have follows : line.after key (.returned lend accepted) = line.giveBack := if_pos same
    rw [follows]
    exact ⟨theirs same, sound.moves_giveBack⟩
  · have follows : line.after key (.returned lend accepted) = line := if_neg same
    rw [follows]
    exact ⟨others same, sound.idles (le_refl _)⟩

omit [Client V σ] in
theorem continues_giveBack {lend : Lend V}
    (annotates : Annotates key line (⟨hand, lend :: lends, world⟩ : Scene V σ))
    (sound : line.Sound world.thread.lastToken) (welcome : lend.isWelcome world = true) :
    Continues key line ⟨hand, lend :: lends, world⟩ (.returned lend true)
      ⟨hand, lends, lend.giveBack world⟩ := by
  refine continues_return sound rfl (fun same => ?_) fun differ => ?_
  · obtain ⟨other, owner, id, value⟩ := lend
    obtain rfl : other = key := same
    exact continues_giveBackOf annotates welcome
  · exact annotates.elsewhere (Ne.symm differ) rfl (filterMap_of?_other differ lends).symm

omit [Client V σ] in
theorem continues_keepBack {lend : Lend V}
    (annotates : Annotates key line (⟨hand, lend :: lends, world⟩ : Scene V σ))
    (sound : line.Sound world.thread.lastToken) (unwelcome : lend.isWelcome world = false)
    (hands : Hand V) :
    Continues key line ⟨hand, lend :: lends, world⟩ (.returned lend false)
      ⟨hands, lends, world⟩ := by
  refine continues_return sound rfl (fun same => ?_) fun differ => ?_
  · obtain ⟨other, owner, id, value⟩ := lend
    obtain rfl : other = key := same
    exact continues_keepBackOf annotates unwelcome
  · exact ⟨annotates.stack, annotates.alive,
      annotates.loans.trans (filterMap_of?_other differ lends)⟩

omit [Client V σ] in
theorem continues_endStorage (annotates : Annotates key line (⟨hand, lends, world⟩ : Scene V σ))
    (sound : line.Sound world.thread.lastToken) (payloads : List (Payload V)) (hands : Hand V) :
    Continues key line ⟨hand, lends, world⟩ (.storageEnded payloads)
      ⟨hands, lends, world.withoutStorage⟩ :=
  ⟨⟨rfl, rfl, annotates.loans⟩, sound.moves_endStorage⟩

/-- Every deed of a thread takes its timelines on, that of the tally excepted. -/
theorem continues (does : Does first deed last) (plain : key ≠ .tally)
    (annotates : Annotates key line first) (sound : line.Sound first.world.thread.lastToken) :
    Continues key line first deed last := by
  have idles : line.Moves first.world.thread.lastToken first.world.thread.lastToken line :=
    sound.idles (le_refl _)
  cases does with
  | other unmoved =>
      refine ⟨annotates.unmoved unmoved.store, sound.idles ?_⟩
      exact unmoved.lastToken.ge
  | arm | disarm | pack | unpack | make | finish | startLeaving =>
      exact ⟨annotates.unmoved rfl, idles⟩
  | leave owner tallies => cases tallies <;> exact ⟨annotates.unmoved rfl, idles⟩
  | enter scope => exact continues_enter annotates sound scope
  | close owner other rest tallies => exact continues_close annotates sound other owner _
  | put other id value => exact continues_put annotates sound other id value _
  | take other id => exact continues_take annotates sound other id _
  | count name id => exact continues_elsewhere annotates sound plain rfl rfl rfl
  | lend lend innermost theirs held =>
      exact continues_lend annotates sound lend innermost theirs held
  | giveBack lend welcome => exact continues_giveBack annotates sound welcome
  | keepBack lend unwelcome => exact continues_keepBack annotates sound unwelcome _
  | endStorage => exact continues_endStorage annotates sound _ _

end Steps

section Runs

variable {α : Type} {line first last : Timeline α} {drawn : Nat}

/-- The values of a stack descend in age inward, and what gives way gives way to a younger value.
Every value that was recorded is in a frame, on loan or lost. -/
structure LastWins (line : Timeline α) : Prop where
  numbered : line.records.Pairwise fun newer older => older.time < newer.time
  complete : line.isComplete
  inward : (line.stack.frames.filterMap Frame.value?).Pairwise fun inner outer =>
    outer.time < inner.time
  displaced : ∀ lost kept, .displaced lost kept ∈ line.losses → lost.time < kept.time

theorem held_sublist_marks (since : Token → Nat) (loans : List (Loan α))
    (frames : List (Frame (Stamped α))) :
    ((frames.filterMap Frame.value?).map Mark.write).Sublist (Stack.marksOf since loans frames) := by
  induction frames with
  | nil => exact .slnil
  | cons frame below ih =>
      rw [Stack.marksOf_cons, Frame.marks]
      rcases held : frame.value? with _ | stamped
      · rw [List.filterMap_cons_none held]
        exact ih.trans (List.sublist_append_right _ _)
      · rw [List.filterMap_cons_some held]
        exact List.Sublist.cons_cons _ (ih.trans (List.sublist_append_right _ _))

theorem Sound.lastWins (sound : line.Sound drawn) : line.LastWins where
  numbered := sound.ordered.numbered
  complete := sound.complete
  inward := List.pairwise_map.1 (sound.ordered.descending.sublist (held_sublist_marks _ _ _))
  displaced := sound.ordered.displaced

/-- What a frame that was innermost at `first` holds at `last`, where it is innermost again and
`made` was recorded in between: the latest value, unless that was moved out or lent. A frame that
had no value and saw no record holds nothing but what it had lent before. -/
def Holds (first last : Timeline α) (made : List (Stamped α)) (before after : Frame (Stamped α)) :
    Prop :=
  match (made ++ before.value?.toList).head? with
  | some latest => after.value? = some latest ∨ latest ∈ last.loans.map Loan.stamped ∨
      .taken latest ∈ last.losses ∨ .orphaned latest ∈ last.losses
  | none => ∀ stamped, after.value? = some stamped → stamped ∈ first.loans.map Loan.stamped

theorem Stretch.holds {made : List (Stamped α)} {now : Nat} {before after : Frame (Stamped α)}
    (stretch : Stretch drawn first before.value? made last) (start : first.Sound drawn)
    (sound : last.Sound now) (innermost : first.stack.top? = some before)
    (top : last.stack.top? = some after) (same : after.owner = before.owner) :
    Holds first last made before after := by
  unfold Holds
  split
  · rename_i latest newest
    exact stretch.holds_latest start sound innermost top same newest
  · rename_i none
    intro stamped held
    exact stretch.holds_nothing start sound innermost top same (List.head?_eq_none_iff.1 none) held

variable [Client V σ] {key : Key V} {here there : Scene V σ} {deeds : List (Deed V)}

omit [Client V σ] in
theorem foldl_elsewhere (line : Timeline key.Value) (within : List (Deed V)) :
    (within.map Deed.elsewhere).foldl (after key) line = line := by
  induction within with
  | nil => rfl
  | cons deed rest ih => exact ih

theorem run (course : Course here deeds there) (plain : key ≠ .tally)
    {start line : Timeline key.Value} {held : Option (Stamped key.Value)}
    {made : List (Stamped key.Value)} (annotates : Annotates key line here)
    (sound : line.Sound here.world.thread.lastToken) (drew : drawn ≤ here.world.thread.lastToken)
    (stretch : Stretch drawn start held made line) :
    Annotates key (deeds.foldl (after key) line) there ∧
      (deeds.foldl (after key) line).Sound there.world.thread.lastToken ∧
      ∃ made, Stretch drawn start held made (deeds.foldl (after key) line) := by
  -- the stretch is measured from a fixed start while the line goes on
  induction course generalizing line made with
  | done => exact ⟨annotates, sound, made, stretch⟩
  | step does _ ih =>
      obtain ⟨annotates, moves⟩ := continues does plain annotates sound
      obtain ⟨more, stretch⟩ := stretch.step sound drew moves
      exact ih annotates moves.sound (drew.trans moves.drawn) stretch
  | thread _ _ _ _ _ ih =>
      rw [List.foldl_append, foldl_elsewhere]
      exact ih (annotates.unmoved rfl) sound drew stretch

end Runs

section Fresh

variable [Client V σ] {key : Key V} {given : Hand V} {world : World V (Ledger V σ)}

omit [Client V σ] in
theorem annotates_start (fresh : world.thread = .fresh V) :
    Annotates key .start (⟨given, [], world⟩ : Scene V σ) where
  stack := by
    rw [fresh]
    rfl
  alive := by
    rw [fresh]
    rfl
  loans := rfl

theorem of_course {deeds : List (Deed V)} {scene : Scene V σ}
    (course : Course ⟨given, [], world⟩ deeds scene) (fresh : world.thread = .fresh V)
    (plain : key ≠ .tally) : Annotates key (of key deeds) scene ∧
      (of key deeds).Sound scene.world.thread.lastToken := by
  have rest : Stretch 0 (.start : Timeline key.Value) none [] .start := .start 0 (by simp)
  have sound : Sound world.thread.lastToken (.start : Timeline key.Value) := by
    rw [fresh]
    exact sound_start
  obtain ⟨annotates, sound, _⟩ := run course plain (annotates_start fresh) sound (Nat.zero_le _) rest
  exact ⟨annotates, sound⟩

theorem of_further {deeds further : List (Deed V)} {scene last : Scene V σ}
    (course : Course ⟨given, [], world⟩ deeds scene) (fresh : world.thread = .fresh V)
    (plain : key ≠ .tally) (more : Course scene further last) {before : Frame (Stamped key.Value)}
    (innermost : (of key deeds).stack.top? = some before)
    (still : before.owner ∈ (of key (deeds ++ further)).owners)
    (left : ∀ owner ∈ (of key (deeds ++ further)).owners, owner ∈ (of key deeds).owners) :
    ∃ after made, (of key (deeds ++ further)).stack.top? = some after ∧
      after.owner = before.owner ∧
      (of key (deeds ++ further)).records = made ++ (of key deeds).records ∧
      (of key deeds).Holds (of key (deeds ++ further)) made before after := by
  obtain ⟨annotates, sound⟩ := of_course course fresh plain
  have begin : Stretch scene.world.thread.lastToken (of key deeds) before.value? [] (of key deeds) :=
    .start _ fun stamped held => .start sound innermost held
  obtain ⟨_, later, made, stretch⟩ := run more plain annotates sound (le_refl _) begin
  unfold of at *
  rw [List.foldl_append] at *
  obtain ⟨after, top, same⟩ := top_again sound.owned later.owned innermost still left
  exact ⟨after, made, top, same, stretch.records,
    stretch.holds sound later innermost top same⟩

end Fresh

end Timeline

/-- The last write wins. The deeds of a linear program on a fresh thread are a course that ends where
the program does, and what was stamped is what the program recorded. At every point of every course
the values of a type other than the tally descend in age inward and none has given way to an older
one. A frame that is innermost at one point and, once every younger one is closed, at a later point
has the latest of what was recorded meanwhile and what it held, unless that was moved out or lent. -/
theorem last_write_wins [Client V σ] {α : Type} {act : Act V (Ledger V σ) α} {given hand : Hand V}
    {world : World V (Ledger V σ)} {key : Key V} {deeds : List (Deed V)}
    (fresh : world.thread = .fresh V) (plain : key ≠ .tally)
    (linear : Linear given act world deeds hand) :
    (∃ lends, Course ⟨given, [], world⟩ deeds ⟨hand, lends, (act world).2⟩ ∧
      (Timeline.of key deeds).Annotates key
        (⟨hand, lends, (act world).2⟩ : Scene V σ) ∧
      (Timeline.of key deeds).records.map Stamped.value =
        (deeds.filterMap (Deed.recorded? key)).reverse ∧
      (Timeline.of key deeds).LastWins) ∧
    ∀ (deeds : List (Deed V)) (scene : Scene V σ), Course ⟨given, [], world⟩ deeds scene →
      (Timeline.of key deeds).Annotates key scene ∧ (Timeline.of key deeds).LastWins ∧
      ∀ (further : List (Deed V)) (last : Scene V σ), Course scene further last →
        ∀ before, (Timeline.of key deeds).stack.top? = some before →
          before.owner ∈ (Timeline.of key (deeds ++ further)).owners →
          (∀ owner ∈ (Timeline.of key (deeds ++ further)).owners,
            owner ∈ (Timeline.of key deeds).owners) →
          ∃ after made, (Timeline.of key (deeds ++ further)).stack.top? = some after ∧
            after.owner = before.owner ∧
            (Timeline.of key (deeds ++ further)).records = made ++ (Timeline.of key deeds).records ∧
            (Timeline.of key deeds).Holds (Timeline.of key (deeds ++ further)) made before after := by
  refine ⟨?_, fun deeds scene course => ?_⟩
  · obtain ⟨still, course, -⟩ := linear.settles []
    obtain ⟨annotates, sound⟩ := Timeline.of_course course fresh plain
    have stamped := Timeline.records_foldl key deeds .start
    exact ⟨still ++ [], course, annotates, stamped.trans (List.append_nil _), sound.lastWins⟩
  · obtain ⟨annotates, sound⟩ := Timeline.of_course course fresh plain
    refine ⟨annotates, sound.lastWins, fun further last more before innermost still left => ?_⟩
    exact Timeline.of_further course fresh plain more innermost still left

/-- Of the echoes that were recorded the youngest have ended in the blocks that heard them, and of the
other two the younger wins: it is what the scope holds that outlives the other. -/
theorem overlapping_scopes_keep_the_last_write :
    ((Scenario.interlude Scenario.dawn).2.thread.stack (Scenario.Topic.ofKind .echo)).valueFor
        Scenario.echoed.raw = some (8 : Int) ∧
      ∃ deeds, Linear 0 Scenario.interlude Scenario.dawn deeds
          {.scope ⟨Scenario.innerScope.interest, .numbered 2, false⟩} ∧
        (∃ lends, (Timeline.of (Scenario.Topic.ofKind .echo) deeds).Annotates
          (Scenario.Topic.ofKind .echo)
          ⟨{.scope ⟨Scenario.innerScope.interest, .numbered 2, false⟩}, lends,
            (Scenario.interlude Scenario.dawn).2⟩) ∧
        (Timeline.of (Scenario.Topic.ofKind .echo) deeds).LastWins := by
  have plain : Scenario.Topic.ofKind .echo ≠ .tally := by decide
  obtain ⟨deeds, linear⟩ := Scenario.interlude_linear
  obtain ⟨⟨lends, _, annotates, _, wins⟩, _⟩ := last_write_wins rfl plain linear
  have kept : Scenario.echoOf (Scenario.interlude Scenario.dawn).2 = some 8 := by decide +kernel
  exact ⟨kept, deeds, linear, ⟨lends, annotates⟩, wins⟩

end FaultRelay

import FaultRelay.Proofs.Course
import FaultRelay.Proofs.ThreadStacks

/-! What the steps of a course do to the thread: which stacks change and how, what becomes of the
token and tally counters, and that a thread without storage stays without it. -/
namespace FaultRelay

variable {V : Vocabulary} {σ : Type}

theorem Interest.nodup_keys (interest : Interest V) : interest.keys.Nodup := interest.once

namespace Thread

def openAll (owner : Token) (keys : List (Key V)) (thread : Thread V) : Thread V :=
  keys.foldl (fun thread key => thread.setStack key ((thread.stack key).openFor owner)) thread

theorem openAll_cons (owner : Token) (key : Key V) (rest : List (Key V)) (thread : Thread V) :
    openAll owner (key :: rest) thread =
      openAll owner rest (thread.setStack key ((thread.stack key).openFor owner)) := rfl

@[simp] theorem openAll_tallying (owner : Token) (keys : List (Key V)) (thread : Thread V) :
    (openAll owner keys thread).tallying = thread.tallying := by
  induction keys generalizing thread with
  | nil => rfl
  | cons key rest ih => rw [openAll_cons, ih, setStack_tallying]

theorem openAll_numbered (owner : Token) (keys : List (Key V)) (thread : Thread V) (n : Nat) :
    openAll owner keys { thread with lastToken := n } =
      { openAll owner keys thread with lastToken := n } := by
  induction keys generalizing thread with
  | nil => rfl
  | cons key rest ih =>
      rw [openAll_cons, openAll_cons, ← ih]
      rfl

theorem openAll_gone {thread : Thread V} (gone : thread.store = none) (owner : Token)
    (keys : List (Key V)) : openAll owner keys thread = thread := by
  induction keys with
  | nil => rfl
  | cons key rest ih => rw [openAll_cons, setStack_gone gone, ih]

theorem openAll_alive {thread : Thread V} (alive : thread.store ≠ none) (owner : Token)
    (keys : List (Key V)) : (openAll owner keys thread).store ≠ none := by
  induction keys generalizing thread with
  | nil => exact alive
  | cons key rest ih => exact ih (setStack_alive alive key _)

theorem stack_openAll_other {thread : Thread V} (owner : Token) {keys : List (Key V)} {key : Key V}
    (absent : key ∉ keys) : (openAll owner keys thread).stack key = thread.stack key := by
  induction keys generalizing thread with
  | nil => rfl
  | cons first rest ih =>
      rw [List.mem_cons, not_or] at absent
      rw [openAll_cons, ih absent.2, stack_setStack_other thread _ absent.1]

theorem stack_openAll {thread : Thread V} (alive : thread.store ≠ none) (owner : Token)
    {keys : List (Key V)} (once : keys.Nodup) {key : Key V} (listed : key ∈ keys) :
    (openAll owner keys thread).stack key = (thread.stack key).openFor owner := by
  induction keys generalizing thread with
  | nil => cases listed
  | cons first rest ih =>
      obtain ⟨apart, once⟩ := List.nodup_cons.1 once
      rw [openAll_cons]
      by_cases here : key = first
      · subst here
        rw [stack_openAll_other owner apart, stack_setStack alive]
      · have later : key ∈ rest := (List.mem_cons.1 listed).resolve_left here
        rw [ih (setStack_alive alive first _) once later, stack_setStack_other thread _ here]

end Thread

theorem Lend.isWelcome_iff {lend : Lend V} {world : World V (Ledger V σ)} :
    lend.isWelcome world = true ↔
      ∃ frame, (world.thread.stack lend.key).frameOf? lend.owner = some frame ∧
        frame.held = none := by
  unfold isWelcome
  rcases (world.thread.stack lend.key).frameOf? lend.owner with _ | ⟨owner, refs, _ | held⟩ <;> simp

section Entering

variable [Host V σ]

theorem openSlots_thread (owner : Token) (keys : List (Key V)) (world : World V σ) :
    (keys.forM (Scope.openSlot owner) world).2.thread = world.thread.openAll owner keys := by
  induction keys generalizing world with
  | nil => rfl
  | cons key rest ih => exact ih (Scope.openSlot owner key world).2

def Scope.opened (scope : Scope V) (world : World V σ) : World V σ :=
  (scope.interest.keys.forM (Scope.openSlot (.numbered (world.thread.lastToken + 1)))
    { world with thread.lastToken := world.thread.lastToken + 1 }).2

/-- The world after a scope was entered, but for what the observer was told last. -/
def Scope.entered (scope : Scope V) (world : World V σ) : World V σ :=
  if scope.interest.tallies then
    { scope.opened world with
      thread := { (scope.opened world).thread with
        tallying := (scope.opened world).thread.tallying + 1 } }
  else scope.opened world

theorem enter_apply (scope : Scope V) (world : World V σ) :
    scope.enter world =
      (⟨scope.interest, .numbered (world.thread.lastToken + 1), scope.interest.tallies⟩,
        (emit (.activated (world.thread.lastToken + 1) scope.interest.size)
          (scope.entered world)).2) := by
  have shape : scope.enter world =
      ((do
        if scope.interest.tallies then
          Quiet.modifyThread fun thread => { thread with tallying := thread.tallying + 1 }
        emit (.activated (world.thread.lastToken + 1) scope.interest.size)
        return ⟨scope.interest, .numbered (world.thread.lastToken + 1), scope.interest.tallies⟩ :
        Quiet V σ (OpenScope V))) (scope.opened world) := rfl
  rw [shape, Scope.entered]
  cases scope.interest.tallies <;> rfl

theorem opened_thread (scope : Scope V) (world : World V σ) :
    (scope.opened world).thread =
      { (world.thread.openAll (.numbered (world.thread.lastToken + 1)) scope.interest.keys) with
        lastToken := world.thread.lastToken + 1 } := by
  rw [Scope.opened, openSlots_thread]
  exact Thread.openAll_numbered _ _ _ _

theorem enter_thread (scope : Scope V) (world : World V σ) :
    (scope.enter world).2.thread =
      { (world.thread.openAll (.numbered (world.thread.lastToken + 1)) scope.interest.keys) with
        lastToken := world.thread.lastToken + 1
        tallying := world.thread.tallying + if scope.interest.tallies then 1 else 0 } := by
  rw [enter_apply]
  change (scope.entered world).thread = _
  rw [Scope.entered]
  cases scope.interest.tallies with
  | false =>
      rw [if_neg Bool.false_ne_true, opened_thread]
      simp
  | true =>
      rw [if_pos rfl, opened_thread]
      simp

end Entering

section Steps

variable [Client V σ]

theorem openSlots_made (owner : Token) (keys : List (Key V)) (world : World V (Ledger V σ)) :
    (keys.forM (Scope.openSlot owner) world).2.host.made = world.host.made := by
  induction keys generalizing world with
  | nil => rfl
  | cons key rest ih => exact ih (Scope.openSlot owner key world).2

theorem openSlots_ended (owner : Token) (keys : List (Key V)) (world : World V (Ledger V σ)) :
    (keys.forM (Scope.openSlot owner) world).2.host.ended = world.host.ended := by
  induction keys generalizing world with
  | nil => rfl
  | cons key rest ih => exact ih (Scope.openSlot owner key world).2

theorem enter_made (scope : Scope V) (world : World V (Ledger V σ)) :
    (scope.enter world).2.host.made = world.host.made := by
  have opened : (scope.opened world).host.made = world.host.made := openSlots_made _ _ _
  rw [enter_apply]
  change (scope.entered world).host.made = _
  rw [Scope.entered]
  cases scope.interest.tallies <;> exact opened

theorem enter_ended (scope : Scope V) (world : World V (Ledger V σ)) :
    (scope.enter world).2.host.ended = world.host.ended := by
  have opened : (scope.opened world).host.ended = world.host.ended := openSlots_ended _ _ _
  rw [enter_apply]
  change (scope.entered world).host.ended = _
  rw [Scope.entered]
  cases scope.interest.tallies <;> exact opened

theorem Does.storage_gone {first last : Scene V σ} {deed : Deed V} (does : Does first deed last)
    (gone : first.world.thread.store = none) : last.world.thread.store = none := by
  have kept : ∀ (key : Key V) stack, (first.world.thread.setStack key stack).store = none := by
    intro key stack
    rw [Thread.setStack_gone gone, gone]
  cases does with
  | other unmoved => exact unmoved.store.trans gone
  | leave owner tallies => cases tallies <;> exact gone
  | enter scope =>
      rw [enter_thread]
      change (Thread.openAll _ _ _).store = none
      rw [Thread.openAll_gone gone, gone]
  | close | put | take | count | lend | giveBack => exact kept _ _
  | endStorage => rfl
  | arm | disarm | pack | unpack | make | finish | startLeaving | keepBack => exact gone

theorem Course.storage_gone {first last : Scene V σ} {deeds : List (Deed V)}
    (course : Course first deeds last) (gone : first.world.thread.store = none) :
    last.world.thread.store = none := by
  induction course with
  | done => exact gone
  | step does _ ih => exact ih (does.storage_gone gone)
  | thread _ _ _ _ _ ih => exact ih gone

end Steps

end FaultRelay

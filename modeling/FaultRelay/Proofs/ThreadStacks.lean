import FaultRelay.Slot.Access

/-! The stacks of a thread. Setting one changes no other, setting it to what it is changes nothing,
and a thread without storage has only empty stacks and keeps them. -/
namespace FaultRelay

variable {V : Vocabulary} {σ : Type}

theorem Store.set_stack_self (store : Store V) (key : Key V) :
    store.set key (store.stack key) = store := by
  obtain ⟨entries⟩ := store
  unfold set stack
  congr 1
  induction entries with
  | nil => rfl
  | cons entry rest ih =>
      obtain ⟨first, old⟩ := entry
      by_cases same : first = key
      · subst same
        simp [replace, lookup]
      · simp only [replace, lookup, same, if_false, dif_neg, not_false_eq_true]
        rw [ih]

theorem Stack.onTop_without_of_absent {α : Type} {stack : Stack α} {id : Nat}
    (absent : stack.valueFor id = none) : stack.onTop (·.without id) = stack := by
  obtain ⟨_ | ⟨⟨owner, refs, _ | ⟨tag, value⟩⟩, below⟩⟩ := stack
  · rfl
  · rfl
  · by_cases same : tag = id
    · simp [valueFor, top?, Frame.valueFor, Frame.holds, Frame.id, Frame.value?, same] at absent
    · simp [onTop, Frame.without, Frame.holds, Frame.id, same]

theorem Frame.held_of_valueFor {α : Type} {frame : Frame α} {id : Nat} {value : α}
    (found : frame.valueFor id = some value) : frame.held = some (id, value) := by
  obtain ⟨owner, refs, _ | ⟨tag, held⟩⟩ := frame
  · simp [valueFor, value?] at found
  · by_cases same : tag = id <;> simp_all [valueFor, value?, holds, Frame.id]

theorem Store.set_set (store : Store V) (key : Key V) (first : Stack key.Value)
    {second : Stack key.Value} (opened : second.isOpen = true) :
    (store.set key first).set key second = store.set key second := by
  obtain ⟨entries⟩ := store
  refine congrArg Store.mk ?_
  change replace key second (replace key first entries) = replace key second entries
  induction entries with
  | nil => cases here : first.isOpen <;> simp [replace, here, opened]
  | cons entry rest ih => by_cases same : entry.1 = key <;> simp [replace, same, ih]

namespace Thread

theorem setStack_setStack (thread : Thread V) (key : Key V) (first : Stack key.Value)
    {second : Stack key.Value} (opened : second.isOpen = true) :
    (thread.setStack key first).setStack key second = thread.setStack key second := by
  obtain ⟨_ | store, lastToken, tallying, current, reserved, unwindings⟩ := thread
  · rfl
  · simp [setStack, Store.set_set store key first opened]

theorem setStack_self (thread : Thread V) (key : Key V) :
    thread.setStack key (thread.stack key) = thread := by
  obtain ⟨_ | store, lastToken, tallying, current, reserved, unwindings⟩ := thread
  · rfl
  · simp [setStack, stack, Store.set_stack_self]

@[simp] theorem setStack_tallying (thread : Thread V) (key : Key V) (stack : Stack key.Value) :
    (thread.setStack key stack).tallying = thread.tallying := rfl

theorem setStack_gone {thread : Thread V} (gone : thread.store = none) (key : Key V)
    (stack : Stack key.Value) : thread.setStack key stack = thread := by
  unfold setStack
  rw [gone]
  cases thread
  cases gone
  rfl

theorem setStack_alive {thread : Thread V} (alive : thread.store ≠ none) (key : Key V)
    (stack : Stack key.Value) : (thread.setStack key stack).store ≠ none := by
  unfold setStack
  simpa using alive

theorem stack_gone {thread : Thread V} (gone : thread.store = none) (key : Key V) :
    thread.stack key = .empty := by
  unfold stack
  rw [gone]

theorem alive_of_frames {thread : Thread V} {key : Key V} (held : (thread.stack key).frames ≠ []) :
    thread.store ≠ none := by
  intro gone
  rw [stack_gone gone] at held
  exact held rfl

theorem stack_setStack {thread : Thread V} (alive : thread.store ≠ none) (key : Key V)
    (stack : Stack key.Value) : (thread.setStack key stack).stack key = stack := by
  obtain ⟨store, stored⟩ := Option.ne_none_iff_exists'.1 alive
  exact stack_setStack_same stored key stack

end Thread

theorem takeFor_absent {key : Key V} {id : Nat} {world : World V σ}
    (absent : (world.thread.stack key).valueFor id = none) :
    Slot.takeFor key id world = (none, world) := by
  have same : Stack.takeFor id (world.thread.stack key) = (none, world.thread.stack key) := by
    rw [Stack.takeFor, absent, Stack.onTop_without_of_absent absent]
  rw [Slot.takeFor, Slot.onStack_apply, same, Thread.setStack_self]

end FaultRelay

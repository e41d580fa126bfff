import FaultRelay.Payload
import FaultRelay.Slot.Stack

/-! The stacks of one thread, one for each payload type that was ever opened, in the order of first
opening. A type without an entry has the empty stack, and storing an empty stack makes no entry. -/
namespace FaultRelay

structure Store (V : Vocabulary) where
  entries : List ((key : Key V) × Stack key.Value)

namespace Store

variable {V : Vocabulary}

def empty : Store V := ⟨[]⟩

def lookup (key : Key V) : List ((key : Key V) × Stack key.Value) → Stack key.Value
  | [] => .empty
  | ⟨first, stack⟩ :: rest => if same : first = key then same ▸ stack else lookup key rest

def stack (store : Store V) (key : Key V) : Stack key.Value := lookup key store.entries

def replace (key : Key V) (stack : Stack key.Value) :
    List ((key : Key V) × Stack key.Value) → List ((key : Key V) × Stack key.Value)
  | [] => if stack.isOpen then [⟨key, stack⟩] else []
  | entry :: rest => if entry.1 = key then ⟨key, stack⟩ :: rest else entry :: replace key stack rest

def set (store : Store V) (key : Key V) (stack : Stack key.Value) : Store V :=
  ⟨replace key stack store.entries⟩

def types (store : Store V) : Nat := store.entries.length

@[simp] theorem stack_empty (key : Key V) : (empty : Store V).stack key = .empty := rfl

@[simp] theorem stack_set_same (store : Store V) (key : Key V) (stack : Stack key.Value) :
    (store.set key stack).stack key = stack := by
  obtain ⟨entries⟩ := store
  simp only [set, Store.stack]
  induction entries with
  | nil =>
      simp only [replace]
      split
      · simp [lookup]
      · rename_i closed
        obtain ⟨frames⟩ := stack
        cases frames with
        | nil => rfl
        | cons top below => simp [Stack.isOpen] at closed
  | cons entry rest ih =>
      obtain ⟨first, old⟩ := entry
      by_cases same : first = key
      · simp [replace, same, lookup]
      · simp [replace, same, lookup, ih]

@[simp] theorem stack_set_other (store : Store V) {key other : Key V} (stack : Stack key.Value)
    (differ : other ≠ key) : (store.set key stack).stack other = store.stack other := by
  obtain ⟨entries⟩ := store
  simp only [set, Store.stack]
  induction entries with
  | nil =>
      simp only [replace]
      split
      · simp [lookup, Ne.symm differ]
      · rfl
  | cons entry rest ih =>
      obtain ⟨first, old⟩ := entry
      by_cases same : first = key
      · subst same; simp [replace, lookup, Ne.symm differ]
      · by_cases here : first = other
        · subst here; simp [replace, same, lookup]
        · simp [replace, same, lookup, here, ih]

end Store

end FaultRelay

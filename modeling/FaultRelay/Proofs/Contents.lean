import FaultRelay.Proofs.Course
import Mathlib.Tactic.Abel

/-! What stacks hold, as multisets of values: every operation accounts for the values that it puts in
and for those that it gives out. Nothing here says in which frame a value is. -/
namespace FaultRelay

variable {V : Vocabulary} {σ : Type}

def Payload.valueOf? (key : Key V) (payload : Payload V) : Option key.Value :=
  if same : payload.key = key then some (same ▸ payload.value) else none

def valuesOf (key : Key V) (payloads : List (Payload V)) : Multiset key.Value :=
  ↑(payloads.filterMap (Payload.valueOf? key))

@[simp] theorem valuesOf_nil (key : Key V) : valuesOf key [] = 0 := rfl

theorem valuesOf_append (key : Key V) (first second : List (Payload V)) :
    valuesOf key (first ++ second) = valuesOf key first + valuesOf key second := by
  rw [valuesOf, List.filterMap_append, ← Multiset.coe_add]
  rfl

theorem valuesOf_cons (key : Key V) (payload : Payload V) (rest : List (Payload V)) :
    valuesOf key (payload :: rest) = valuesOf key [payload] + valuesOf key rest :=
  valuesOf_append key [payload] rest

theorem valuesOf_payloads (key : Key V) (values : List key.Value) :
    valuesOf key (key.payloads values) = ↑values := by
  rw [valuesOf, Key.payloads, List.filterMap_map]
  congr 1
  have whole : Payload.valueOf? key ∘ (⟨key, ·⟩) = some := by
    funext value
    simp [Payload.valueOf?]
  rw [whole, List.filterMap_some]

theorem valuesOf_other {key other : Key V} (differ : other ≠ key) (values : List other.Value) :
    valuesOf key (other.payloads values) = 0 := by
  rw [valuesOf, Key.payloads, List.filterMap_map, List.filterMap_eq_nil_iff.2]
  · rfl
  · intro value _
    simp [Payload.valueOf?, differ]

def Stored.accepted {α : Type} (value : α) : Stored α → List α
  | stored _ => [value]
  | rejected _ => []

def Stored.replaced {α : Type} : Stored α → List α
  | stored previous => previous.toList
  | rejected _ => []

namespace Stack

variable {α : Type}

def contentsOf (frames : List (Frame α)) : Multiset α := ↑(frames.filterMap Frame.value?)

def contents (stack : Stack α) : Multiset α := contentsOf stack.frames

theorem contentsOf_cons (frame : Frame α) (below : List (Frame α)) :
    contentsOf (frame :: below) = ↑frame.value?.toList + contentsOf below := by
  unfold contentsOf
  rcases held : frame.value? with _ | value
  · rw [List.filterMap_cons_none held]
    rfl
  · rw [List.filterMap_cons_some held]
    rfl

theorem contents_values (stack : Stack α) : (↑stack.values : Multiset α) = stack.contents := by
  rw [values, List.filterMap_reverse]
  exact Multiset.coe_reverse _

theorem contents_openFor (owner : Token) (stack : Stack α) :
    (stack.openFor owner).contents = stack.contents := by
  obtain ⟨_ | ⟨top, below⟩⟩ := stack
  · rfl
  · simp only [openFor, openFrames, contents]
    split
    · rw [contentsOf_cons, contentsOf_cons]
      rfl
    · rw [contentsOf_cons]
      exact zero_add _

theorem contents_put (id : Nat) (value : α) (stack : Stack α) :
    stack.contents + ↑((stack.put id value).1.accepted value) =
      (stack.put id value).2.contents + ↑(stack.put id value).1.replaced := by
  obtain ⟨_ | ⟨top, below⟩⟩ := stack
  · rfl
  · have held : contentsOf (top.put id value :: below) = {value} + contentsOf below :=
      contentsOf_cons _ _
    change contentsOf (top :: below) + {value} =
      contentsOf (top.put id value :: below) + ↑top.value?.toList
    rw [held, contentsOf_cons]
    abel

theorem contents_takeFor (id : Nat) (stack : Stack α) :
    stack.contents = (stack.takeFor id).2.contents + ↑(stack.takeFor id).1.toList := by
  obtain ⟨_ | ⟨top, below⟩⟩ := stack
  · rfl
  · have taken : (↑top.value?.toList : Multiset α) =
        ↑(top.without id).value?.toList + ↑(top.valueFor id).toList := by
      unfold Frame.without Frame.valueFor
      by_cases holds : top.holds id = true
      · rw [if_pos holds, if_pos holds]
        exact (zero_add _).symm
      · rw [if_neg holds, if_neg holds]
        exact (add_zero _).symm
    change contentsOf (top :: below) =
      contentsOf (top.without id :: below) + ↑(top.valueFor id).toList
    rw [contentsOf_cons, contentsOf_cons, taken]
    abel

theorem contentsOf_handDown (held : Option (Nat × α)) (below : List (Frame α)) :
    ↑(held.map Prod.snd).toList + contentsOf below =
      contentsOf (handDown held below).2 + ↑(handDown held below).1.freed := by
  rcases held with _ | ⟨id, value⟩
  · rw [Option.map_none, Option.toList_none, Multiset.coe_nil, zero_add]
    exact (add_zero _).symm
  · cases below with
    | nil => exact add_comm _ _
    | cons outer rest =>
        have freed : (handDown (some (id, value)) (outer :: rest)).1.freed =
            outer.value?.toList := by
          cases replaced : outer.value? <;> simp [handDown, Closed.freed, replaced]
        change _ = contentsOf (outer.put id value :: rest) + _
        rw [freed, contentsOf_cons, contentsOf_cons]
        change _ = {value} + _ + _
        change {value} + _ = _
        abel

theorem contentsOf_closeFrames (owner : Token) (frames : List (Frame α)) :
    contentsOf frames =
      contentsOf (closeFrames owner frames).2 + ↑(closeFrames owner frames).1.freed := by
  induction frames with
  | nil => rfl
  | cons frame below ih =>
      unfold closeFrames
      by_cases theirs : frame.owner = owner
      · rw [if_pos theirs, contentsOf_cons]
        by_cases shared : 1 < frame.refs
        · rw [if_pos shared, contentsOf_cons]
          exact (add_zero _).symm
        · rw [if_neg shared]
          exact contentsOf_handDown frame.held below
      · rw [if_neg theirs, contentsOf_cons, contentsOf_cons, add_assoc, ← ih]

theorem contents_close (owner : Token) (stack : Stack α) :
    stack.contents = (stack.close owner).2.contents + ↑(stack.close owner).1.freed :=
  contentsOf_closeFrames owner stack.frames

/-- A value put into an empty frame adds to the contents. -/
theorem contents_onFrame {owner : Token} {stack : Stack α} {frame : Frame α} (id : Nat) (value : α)
    (found : stack.frameOf? owner = some frame) (empty : frame.held = none) :
    (stack.onFrame owner (·.put id value)).contents = stack.contents + {value} := by
  obtain ⟨frames⟩ := stack
  simp only [onFrame, contents, frameOf?] at found ⊢
  induction frames with
  | nil => cases found
  | cons first below ih =>
      by_cases theirs : first.owner = owner
      · rw [List.find?_cons_of_pos (by simpa using theirs)] at found
        cases found
        have held : contentsOf (frame.put id value :: below) = {value} + contentsOf below :=
          contentsOf_cons _ _
        have none : frame.value? = none := by rw [Frame.value?, empty]; rfl
        rw [editFirst, if_pos theirs, held, contentsOf_cons, none]
        abel
      · rw [List.find?_cons_of_neg (by simpa using theirs)] at found
        rw [editFirst, if_neg theirs, contentsOf_cons, contentsOf_cons, ih found, add_assoc]

end Stack

def Store.isTidy (store : Store V) : Prop := (store.entries.map Sigma.fst).Nodup

theorem Store.mem_keys_replace {key other : Key V} {stack : Stack key.Value}
    {entries : List ((key : Key V) × Stack key.Value)}
    (listed : other ∈ (replace key stack entries).map Sigma.fst) :
    other = key ∨ other ∈ entries.map Sigma.fst := by
  induction entries with
  | nil =>
      unfold replace at listed
      split at listed
      · exact .inl (List.mem_singleton.1 listed)
      · cases listed
  | cons entry rest ih =>
      unfold replace at listed
      split at listed
      · rcases List.mem_cons.1 listed with same | later
        · exact .inl same
        · exact .inr (List.mem_cons_of_mem _ later)
      · rcases List.mem_cons.1 listed with same | later
        · exact .inr (List.mem_cons.2 (.inl same))
        · exact (ih later).imp_right (List.mem_cons_of_mem _)

theorem Store.isTidy_set {store : Store V} (tidy : store.isTidy) (key : Key V)
    (stack : Stack key.Value) : (store.set key stack).isTidy := by
  obtain ⟨entries⟩ := store
  unfold isTidy set at *
  simp only at *
  induction entries with
  | nil =>
      unfold replace
      split <;> simp
  | cons entry rest ih =>
      obtain ⟨apart, tidy⟩ := List.nodup_cons.1 tidy
      unfold replace
      split
      · rename_i same
        rw [same] at apart
        exact List.nodup_cons.2 ⟨apart, tidy⟩
      · rename_i other
        refine List.nodup_cons.2 ⟨fun listed => ?_, ih tidy⟩
        exact (mem_keys_replace listed).elim other apart

theorem Store.valuesOf_absent {key : Key V} {entries : List ((key : Key V) × Stack key.Value)}
    (absent : key ∉ entries.map Sigma.fst) :
    valuesOf key (entries.flatMap fun entry => entry.1.payloads entry.2.values) = 0 := by
  induction entries with
  | nil => rfl
  | cons entry rest ih =>
      rw [List.map_cons, List.mem_cons, not_or] at absent
      rw [List.flatMap_cons, valuesOf_append, valuesOf_other (Ne.symm absent.1), ih absent.2]
      rfl

theorem Store.valuesOf_entries {store : Store V} (tidy : store.isTidy) (key : Key V) :
    valuesOf key (store.entries.flatMap fun entry => entry.1.payloads entry.2.values) =
      (store.stack key).contents := by
  obtain ⟨entries⟩ := store
  unfold isTidy stack at *
  simp only at *
  induction entries with
  | nil => rfl
  | cons entry rest ih =>
      obtain ⟨first, stack⟩ := entry
      obtain ⟨apart, tidy⟩ := List.nodup_cons.1 tidy
      rw [List.flatMap_cons, valuesOf_append]
      by_cases same : first = key
      · subst same
        rw [valuesOf_payloads, valuesOf_absent apart, Stack.contents_values, add_zero]
        simp [lookup]
      · rw [valuesOf_other same, ih tidy, zero_add]
        simp [lookup, same]

end FaultRelay

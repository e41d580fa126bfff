import FaultRelay.Handler.Selection
import FaultRelay.Parcel
import FaultRelay.Proofs.Renaming

/-! What threads hold, up to a renaming. A thrown object may carry an identity or name one in its
text, and so may what a handler is given. The application says of its own values which failures they
name. -/
namespace FaultRelay

variable {V : Vocabulary} {α β : Type}

/-- How what belongs to the application names failures. What names none is alike if it is the same. -/
class Naming (V : Vocabulary) where
  value (kind : V.Kind) : Likeness (V.Value kind)
  object : Likeness V.Object
  product : Likeness V.Product
  typed : ∀ {names : Renaming} {first second : V.Object},
    object.At names first second → V.objectType first = V.objectType second

variable [Naming V]

section Values

inductive Wording (names : Renaming) : String → String → Prop
  | same (text : String) : Wording names text text
  | broken (index : Nat) (signature : String) {id id' : FailureId} (linked : names.Links id id') :
      Wording names (brokenText index signature id) (brokenText index signature id')
  | uncaught {id id' : FailureId} (linked : names.Links id id') :
      Wording names (uncaughtText id) (uncaughtText id')

def Likeness.wording : Likeness String where
  At := Wording
  mono grown alike := by
    cases alike with
    | same => exact .same _
    | broken index signature linked => exact .broken index signature (grown _ linked)
    | uncaught linked => exact .uncaught (grown _ linked)

inductive Thrown.Like (names : Renaming) : Thrown V → Thrown V → Prop
  | unwound {id id' : FailureId} (linked : names.Links id id') :
      Like names (.unwound id) (.unwound id')
  | identity {id id' : FailureId} (linked : names.Links id id') :
      Like names (.identity id) (.identity id')
  | phrase (text : String) : Like names (.phrase text) (.phrase text)
  | message {text text' : String} (worded : Wording names text text') :
      Like names (.message text) (.message text')
  | foreign {object object' : V.Object} (alike : Naming.object.At names object object') :
      Like names (.foreign object) (.foreign object')

def Likeness.thrown : Likeness (Thrown V) where
  At := Thrown.Like
  mono grown alike := by
    cases alike with
    | unwound linked => exact .unwound (grown _ linked)
    | identity linked => exact .identity (grown _ linked)
    | phrase text => exact .phrase text
    | message worded => exact .message (Likeness.wording.mono grown worded)
    | foreign alike => exact .foreign (Naming.object.mono grown alike)

namespace Thrown.Like

variable {names : Renaming} {object object' : Thrown V}

theorem hasType (alike : Thrown.Like names object object') (type : ThrownType V) :
    object.hasType type = object'.hasType type := by
  cases alike with
  | unwound | identity | phrase | message => rfl
  | foreign alike => rw [Thrown.hasType, Thrown.hasType, Thrown.type, Thrown.type, Naming.typed alike]

theorem text? (alike : Thrown.Like names object object') :
    Likeness.wording.optional.At names object.text? object'.text? := by
  cases alike with
  | unwound | identity | foreign => exact .none
  | phrase => exact .some (.same _)
  | message worded => exact .some worded

end Thrown.Like

def Likeness.value : (key : Key V) → Likeness key.Value
  | .app kind => Naming.value kind
  | .tally => .same
  | .thrown => .thrown

inductive Payload.Like (names : Renaming) : Payload V → Payload V → Prop
  | mk (key : Key V) {value value' : key.Value}
      (alike : (Likeness.value key).At names value value') :
      Like names ⟨key, value⟩ ⟨key, value'⟩

def Likeness.payload : Likeness (Payload V) where
  At := Payload.Like
  mono := fun grown ⟨key, alike⟩ => ⟨key, (Likeness.value key).mono grown alike⟩

inductive Parcel.Like (names : Renaming) : Parcel V → Parcel V → Prop
  | mk {id id' : FailureId} (linked : names.Links id id') {payloads payloads' : List (Payload V)}
      (alike : Likeness.payload.listed.At names payloads payloads') :
      Like names ⟨id, payloads⟩ ⟨id', payloads'⟩

def Likeness.parcel : Likeness (Parcel V) where
  At := Parcel.Like
  mono := fun grown ⟨linked, alike⟩ => ⟨grown _ linked, Likeness.mono _ grown alike⟩

inductive Report.Like (names : Renaming) : Report → Report → Prop
  | mk {id id' : FailureId} (linked : names.Links id id') (unwound : Bool) (present : List String)
      (dropped : Option Tally) :
      Like names ⟨id, unwound, present, dropped⟩ ⟨id', unwound, present, dropped⟩

def Likeness.report : Likeness Report where
  At := Report.Like
  mono := fun grown ⟨linked, unwound, present, dropped⟩ =>
    ⟨grown _ linked, unwound, present, dropped⟩

inductive Reading.Like (names : Renaming) : Reading V → Reading V → Prop
  | take (key : Key V) {value value' : key.Value}
      (alike : (Likeness.value key).At names value value') :
      Like names (.take key value) (.take key value')
  | copy (key : Key V) {value value' : key.Value}
      (alike : (Likeness.value key).At names value value') :
      Like names (.copy key value) (.copy key value')
  | missing : Like names (.optional none) (.optional none)
  | optional {inner inner' : Reading V} (alike : Like names inner inner') :
      Like names (.optional (some inner)) (.optional (some inner'))
  | thrown {object object' : Thrown V} (alike : Thrown.Like names object object') :
      Like names (.thrown object) (.thrown object')
  | message {text text' : String} (worded : Wording names text text') :
      Like names (.message text) (.message text')
  | summary {id id' : FailureId} (linked : names.Links id id') (unwound : Bool) :
      Like names (.summary id unwound) (.summary id' unwound)
  | report {report report' : Report} (alike : Report.Like names report report') :
      Like names (.report report) (.report report')
  | custom {product product' : V.Product} (alike : Naming.product.At names product product') :
      Like names (.custom product) (.custom product')

def Likeness.reading : Likeness (Reading V) where
  At := Reading.Like
  mono grown alike := by
    induction alike with
    | take key alike => exact .take key ((Likeness.value key).mono grown alike)
    | copy key alike => exact .copy key ((Likeness.value key).mono grown alike)
    | missing => exact .missing
    | optional _ ih => exact .optional ih
    | thrown alike => exact .thrown (Likeness.thrown.mono grown alike)
    | message worded => exact .message (Likeness.wording.mono grown worded)
    | summary linked unwound => exact .summary (grown _ linked) unwound
    | report alike => exact .report (Likeness.report.mono grown alike)
    | custom alike => exact .custom (Naming.product.mono grown alike)

def Likeness.case : Likeness (Case V) where
  At names case case' := names.Links case.id case'.id ∧ case.interest = case'.interest
  mono grown alike := ⟨grown _ alike.1, alike.2⟩

inductive Outcome.Like (like : Likeness α) (names : Renaming) : Outcome α → Outcome α → Prop
  | handled {value value' : α} (alike : like.At names value value') :
      Like like names (.handled value) (.handled value')
  | unmatched {id id' : FailureId} (linked : names.Links id id') :
      Like like names (.unmatched id) (.unmatched id')

def Likeness.outcome (like : Likeness α) : Likeness (Outcome α) where
  At := Outcome.Like like
  mono grown alike := by
    cases alike with
    | handled alike => exact .handled (like.mono grown alike)
    | unmatched linked => exact .unmatched (grown _ linked)

inductive Ended (failure : Likeness β) (like : Likeness α) (names : Renaming) :
    Except β α → Except β α → Prop
  | returned {value value' : α} (alike : like.At names value value') :
      Ended failure like names (.ok value) (.ok value')
  | failed {fault fault' : β} (alike : failure.At names fault fault') :
      Ended failure like names (.error fault) (.error fault')

def Likeness.either (failure : Likeness β) (like : Likeness α) : Likeness (Except β α) where
  At := Ended failure like
  mono grown alike := by
    cases alike with
    | returned alike => exact .returned (like.mono grown alike)
    | failed alike => exact .failed (failure.mono grown alike)

inductive Exit.Like (names : Renaming) : Exit V → Exit V → Prop
  | unwinding {object object' : Thrown V} (alike : Thrown.Like names object object') :
      Like names (.unwinding object) (.unwinding object')
  | aborted : Like names .aborted .aborted

def Likeness.exit : Likeness (Exit V) where
  At := Exit.Like
  mono grown alike := by
    cases alike with
    | unwinding alike => exact .unwinding (Likeness.thrown.mono grown alike)
    | aborted => exact .aborted

abbrev Likeness.ended (like : Likeness α) : Likeness (Except (Exit V) α) :=
  Likeness.exit.either like

end Values

section Threads

inductive Store.EntryLike (names : Renaming) :
    ((key : Key V) × Stack key.Value) → ((key : Key V) × Stack key.Value) → Prop
  | mk (key : Key V) {stack stack' : Stack key.Value}
      (alike : (Likeness.value key).stack.At names stack stack') :
      EntryLike names ⟨key, stack⟩ ⟨key, stack'⟩

def Likeness.entry : Likeness ((key : Key V) × Stack key.Value) where
  At := Store.EntryLike
  mono := fun grown ⟨key, alike⟩ => ⟨key, (Likeness.value key).stack.mono grown alike⟩

/-- The same types were opened, in the same order. -/
def Likeness.store : Likeness (Store V) where
  At names store store' := Likeness.entry.listed.At names store.entries store'.entries
  mono := Likeness.entry.listed.mono

namespace Store

variable {names : Renaming} {store store' : Store V}
  (alike : Likeness.store.At names store store')
include alike

theorem stack_alike (key : Key V) :
    (Likeness.value key).stack.At names (store.stack key) (store'.stack key) := by
  obtain ⟨entries⟩ := store
  obtain ⟨entries'⟩ := store'
  change List.Forall₂ _ entries entries' at alike
  change (Likeness.value key).stack.At names (lookup key entries) (lookup key entries')
  induction alike with
  | nil => exact .nil
  | cons entry _ ih =>
      obtain ⟨first, alike⟩ := entry
      unfold lookup
      split
      · rename_i same
        subst same
        exact alike
      · exact ih

theorem set_alike (key : Key V) {stack stack' : Stack key.Value}
    (frames : (Likeness.value key).stack.At names stack stack') :
    Likeness.store.At names (store.set key stack) (store'.set key stack') := by
  obtain ⟨entries⟩ := store
  obtain ⟨entries'⟩ := store'
  change List.Forall₂ _ entries entries' at alike
  change List.Forall₂ _ (replace key stack entries) (replace key stack' entries')
  induction alike with
  | nil =>
      unfold replace
      rw [Stack.isOpen_alike frames]
      split
      · exact .cons (.mk key frames) .nil
      · exact .nil
  | cons entry rest ih =>
      obtain ⟨first, alike⟩ := entry
      unfold replace
      split
      · exact .cons (.mk key frames) rest
      · exact .cons (.mk first alike) ih

theorem types_alike : store.types = store'.types := alike.length_eq

end Store

/-- Threads that differ by the renaming alone. -/
structure Thread.Like (names : Renaming) (thread thread' : Thread V) : Prop where
  store : Likeness.store.optional.At names thread.store thread'.store
  lastToken : thread.lastToken = thread'.lastToken
  tallying : thread.tallying = thread'.tallying
  current : Likeness.id.optional.At names thread.current thread'.current
  reserved : Likeness.id.optional.At names thread.reserved thread'.reserved
  unwindings : thread.unwindings = thread'.unwindings

namespace Thread.Like

variable {names later : Renaming} {thread thread' : Thread V}

theorem mono (grown : names ≤ later) (alike : thread.Like names thread') :
    thread.Like later thread' :=
  { alike with
    store := Likeness.mono _ grown alike.store
    current := Likeness.mono _ grown alike.current
    reserved := Likeness.mono _ grown alike.reserved }

theorem fresh (names : Renaming) : (Thread.fresh V).Like names (.fresh V) :=
  ⟨.some .nil, rfl, rfl, .none, .none, rfl⟩

theorem stack (alike : thread.Like names thread') (key : Key V) :
    (Likeness.value key).stack.At names (thread.stack key) (thread'.stack key) := by
  obtain ⟨store, lastToken, tallying, current, reserved, unwindings⟩ := thread
  obtain ⟨store', lastToken', tallying', current', reserved', unwindings'⟩ := thread'
  cases alike.store with
  | none => exact .nil
  | some stores => exact Store.stack_alike stores key

theorem setStack (alike : thread.Like names thread') (key : Key V) {stack stack' : Stack key.Value}
    (frames : (Likeness.value key).stack.At names stack stack') :
    (thread.setStack key stack).Like names (thread'.setStack key stack') :=
  { alike with
    store := Likeness.optional_map alike.store fun alike => Store.set_alike alike key frames }

end Thread.Like

def Likeness.thread : Likeness (Thread V) := ⟨Thread.Like, Thread.Like.mono⟩

end Threads

end FaultRelay

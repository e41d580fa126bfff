import FaultRelay.Demise
import FaultRelay.Proofs.FrankOperations

/-! What is asked of the settings where the end of a value may unwind. An end that unwinds leaves the
record before it asks, so that the record adds nothing to what the end has asked itself. -/
namespace FaultRelay

variable {V : Vocabulary} {σ : Type} {κ : Key V → Type} {past events : List Consultation}

namespace Demise

section Strays

variable {demise : Demise V σ} {key : Key V} {value : key.Value} {world : World V σ}

variable [Observer σ]

end Strays

def Frank [Observer σ] (demise : Demise V σ) : Prop :=
  ∀ key value, Act.Frank [] (demise key value) Whatever

namespace Frank

variable [Host V σ] {demise : Demise V σ} (frank : demise.Frank)
include frank

theorem ends (key : Key V) (value : key.Value) : Act.Frank past (demise key value) Whatever :=
  (frank key value).lasts List.nil_prefix

theorem all (payloads : List (Payload V)) : Act.Frank past (demise.all payloads) Whatever := by
  induction payloads generalizing past with
  | nil => exact .done ()
  | cons payload rest ih => exact .ensuring (frank.ends _ _) ih

theorem record {key : Key V} {value : key.Value} (own : Payload.Justified past ⟨key, value⟩)
    (id : FailureId) : Act.Frank past (demise.record key value id) Whatever := by
  refine .bind (.put own id.raw) fun _ answer _ _ => ?_
  match answer with
  | .stored none => exact .done true
  | .stored (some previous) => exact .bind (frank.ends key previous) fun _ _ _ _ => .done true
  | .rejected refused =>
      exact .bind (frank.ends key refused) fun _ _ _ _ =>
        .bind (.noteStray key id) fun _ _ _ _ => .done false

theorem recordAll {payloads : List (Payload V)}
    (own : ∀ payload ∈ payloads, payload.Justified past) (id : FailureId) :
    Act.Frank past (demise.recordAll payloads id) Whatever := by
  induction payloads generalizing past with
  | nil => exact .done ()
  | cons payload rest ih =>
      obtain ⟨first, others⟩ := List.forall_mem_cons.1 own
      refine .bind (.bind (.onUnwinding (frank.record first id) (frank.all rest))
        fun _ _ _ _ => .done ()) fun _ _ goes _ => ?_
      exact ih fun payload listed => (others payload listed).lasts goes

theorem newFailure {payloads : List (Payload V)}
    (own : ∀ payload ∈ payloads, payload.Justified past) :
    Act.Frank past (demise.newFailure payloads) Whatever :=
  .bind .mint fun _ id goes _ =>
    .bind (frank.recordAll (fun payload listed => (own payload listed).lasts goes) id)
      fun _ _ _ _ => .done id

theorem unpack {parcel : Parcel V} (own : ∀ payload ∈ parcel.payloads, payload.Justified past) :
    Act.Frank past (demise.unpack parcel) Whatever :=
  .bind (.emit _) fun _ _ goes _ =>
    .bind (frank.recordAll (fun payload listed => (own payload listed).lasts goes) parcel.id)
      fun _ _ _ _ => .done parcel.id

theorem keep (object : Thrown V) : Act.Frank past (demise.keep object) Whatever := by
  have own (later : List Consultation) : Payload.Justified later (⟨.thrown, object⟩ : Payload V) :=
    nofun
  exact .bind (.identify object) fun _ id _ _ => .bind (.emit _) fun _ _ _ _ =>
    .bind (.bind (frank.record (own _) id) fun _ _ _ _ => .done ()) fun _ _ _ _ => .done id

theorem dismiss (guard : Guard V κ) : Act.Frank past (demise.dismiss guard) Whatever := by
  unfold Demise.dismiss
  cases guard.context with
  | prepared payloads => exact frank.all payloads
  | deferred key code => exact .done ()

theorem fire {context : Context V (Deferred V σ)} (known : context.Frank past) (id : FailureId) :
    Act.Frank past (demise.fire (fun _ code => code) context id) Whatever := by
  cases context with
  | prepared payloads => exact frank.recordAll known id
  | deferred key code =>
      have runs : Act.Frank past code fun later value => Payload.Justified later ⟨key, value⟩ :=
        known
      refine .bind (.isOpen key) fun _ opened goes _ => ?_
      cases opened with
      | true =>
          exact .bind (runs.lasts goes) fun _ value _ own =>
            .bind (frank.record own id) fun _ _ _ _ => .done ()
      | false => exact .noteStray key id

theorem drop {guard : Guard V (Deferred V σ)} (known : guard.context.Frank past) :
    Act.Frank past (demise.drop (fun _ code => code) guard) Whatever := by
  refine .bind (.target guard) fun _ found goes _ => ?_
  cases found with
  | none => exact frank.dismiss guard
  | some id => exact frank.fire (known.lasts goes) id

end Frank

end Demise

namespace Operation

variable [Host V σ]

end Operation

end FaultRelay

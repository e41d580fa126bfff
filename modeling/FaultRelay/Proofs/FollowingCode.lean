import FaultRelay.Proofs.Follows
import FaultRelay.Proofs.Outcome
import FaultRelay.Unwinding

/-! Operations that may unwind, and guards, follow as well. The code that a guard or a loan runs is
the program's own; as long as it follows, so does whoever runs it. -/
namespace FaultRelay

variable {V : Vocabulary} [Naming V] {σ α β : Type}

abbrev Deferred (V : Vocabulary) (σ : Type) (key : Key V) := Act V σ key.Value

section Code

variable [Host V σ] (peers : Peers σ)

inductive Context.Like (names : Renaming) :
    Context V (Deferred V σ) → Context V (Deferred V σ) → Prop
  | prepared {payloads payloads' : List (Payload V)}
      (alike : Likeness.payload.listed.At names payloads payloads') :
      Like names (.prepared payloads) (.prepared payloads')
  | deferred (key : Key V) {code code' : Deferred V σ key}
      (follows : Act.Follows peers names (Likeness.value key) code code') :
      Like names (.deferred key code) (.deferred key code')

def Likeness.context : Likeness (Context V (Deferred V σ)) where
  At := Context.Like peers
  mono grown alike := by
    cases alike with
    | prepared alike => exact .prepared (Likeness.mono _ grown alike)
    | deferred key follows => exact .deferred key (follows.mono grown)

inductive Guard.Like (names : Renaming) :
    Guard V (Deferred V σ) → Guard V (Deferred V σ) → Prop
  | mk {context context' : Context V (Deferred V σ)} {baseline baseline' : Option FailureId}
      (contexts : Context.Like peers names context context')
      (baselines : Likeness.id.optional.At names baseline baseline') (wasUnwinding : Bool) :
      Like names ⟨context, baseline, wasUnwinding⟩ ⟨context', baseline', wasUnwinding⟩

def Likeness.guard : Likeness (Guard V (Deferred V σ)) where
  At := Guard.Like peers
  mono := fun grown ⟨contexts, baselines, wasUnwinding⟩ =>
    ⟨(Likeness.context peers).mono grown contexts, Likeness.mono _ grown baselines, wasUnwinding⟩

end Code

namespace Follows

variable [Host V σ] {peers : Peers σ} {names : Renaming} {like : Likeness α} {other : Likeness β}

section Acts

variable {act act' : Act V σ α}

theorem quietly {act act' : Quiet V σ α} (follows : Follows peers names like act act') :
    Act.Follows peers names like (quietly act : Act V σ α) (FaultRelay.quietly act') := by
  intro now grown world world' worlds
  obtain ⟨later, draws, alike, worlds⟩ := follows now grown world world' worlds
  exact ⟨later, draws, .returned alike, worlds⟩

theorem returns {value value' : α} (alike : like.At names value value') :
    Act.Follows peers names like (pure value : Act V σ α) (pure value' : Act V σ α) :=
  quietly (still alike)

theorem andThen {next next' : α → Act V σ β} (first : Act.Follows peers names like act act')
    (rest : ∀ later, names ≤ later → ∀ value value', like.At later value value' →
      Act.Follows peers later other (next value) (next' value')) :
    Act.Follows peers names other (act >>= next) (act' >>= next') := by
  change FaultRelay.Follows peers names other.ended
    (Bind.bind (m := Quiet V σ) act (ExceptT.bindCont next))
    (Bind.bind (m := Quiet V σ) act' (ExceptT.bindCont next'))
  refine seq first fun later grown ended ended' alike => ?_
  cases alike with
  | returned alike => exact rest later grown _ _ alike
  | @failed exit exit' alike =>
      have passed : other.ended.At later (.error exit) (.error exit') := .failed alike
      exact still passed

theorem agreedThen {next next' : α → Act V σ β} (first : Act.Follows peers names .same act act')
    (rest : ∀ later, names ≤ later → ∀ value,
      Act.Follows peers later other (next value) (next' value)) :
    Act.Follows peers names other (act >>= next) (act' >>= next') := by
  refine andThen first ?_
  rintro later grown value _ rfl
  exact rest later grown value

theorem unwind {object object' : Thrown V} (alike : Thrown.Like names object object') :
    Act.Follows peers names like (Act.unwind object : Act V σ α) (Act.unwind object') :=
  fun now grown _ _ worlds => ⟨now, .refl _ _ _,
    .failed (.unwinding (Likeness.thrown.mono grown alike)), { worlds with
      thread := { worlds.thread with
        unwindings := congrArg (· + 1) worlds.thread.unwindings } }⟩

theorem ensuring {after after' : Quiet V σ Unit} (body : Act.Follows peers names like act act')
    (ending : Follows peers names .same after after') :
    Act.Follows peers names like (act.ensuring (FaultRelay.quietly after))
      (act'.ensuring (FaultRelay.quietly after')) := by
  intro now grown world world' worlds
  obtain ⟨middle, draws, alike, worlds⟩ := body now grown world world' worlds
  obtain ⟨later, draws', _, last⟩ := ending middle (grown.trans draws.le) _ _ worlds
  rw [ensuring_quietly_apply, ensuring_quietly_apply]
  generalize (act world).1 = ended at alike ⊢
  generalize (act' world').1 = ended' at alike ⊢
  cases alike with
  | returned alike => exact ⟨later, draws.trans draws', .returned (like.mono draws'.le alike), last⟩
  | failed exits =>
      cases exits with
      | unwinding alike =>
          have alike := Likeness.thrown.mono draws'.le alike
          exact ⟨later, draws.trans draws', .failed (.unwinding alike), last⟩
      | aborted => exact ⟨middle, draws, .failed .aborted, worlds⟩

theorem attempt (body : Act.Follows peers names like act act') :
    Act.Follows peers names (Likeness.thrown.either like) act.attempt act'.attempt := by
  intro now grown world world' worlds
  obtain ⟨later, draws, alike, worlds⟩ := body now grown world world' worlds
  unfold Act.attempt
  rcases ran : act world with ⟨ended, after⟩
  rcases ran' : act' world' with ⟨ended', after'⟩
  rw [ran, ran'] at draws alike worlds
  cases alike with
  | returned alike => exact ⟨later, draws, .returned (.returned alike), worlds⟩
  | failed exits =>
      cases exits with
      | unwinding alike =>
          exact ⟨later, draws, .returned (.failed alike), { worlds with
            thread := { worlds.thread with
              unwindings := congrArg (· - 1) worlds.thread.unwindings } }⟩
      | aborted => exact ⟨later, draws, .failed .aborted, worlds⟩

theorem mapped {change change' : α → β} (follows : Act.Follows peers names like act act')
    (changes : ∀ later, names ≤ later → ∀ value value', like.At later value value' →
      other.At later (change value) (change' value')) :
    Act.Follows peers names other (change <$> act) (change' <$> act') := by
  intro now grown world world' worlds
  obtain ⟨later, draws, alike, worlds⟩ := follows now grown world world' worlds
  rw [map_apply, map_apply]
  refine ⟨later, draws, ?_, worlds⟩
  generalize (act world).1 = ended at alike ⊢
  generalize (act' world').1 = ended' at alike ⊢
  cases alike with
  | returned alike => exact .returned (changes later (grown.trans draws.le) _ _ alike)
  | failed alike => exact .failed alike

end Acts

section Failures

variable {id id' : FailureId}

theorem raise (linked : names.Links id id') :
    Act.Follows peers names like (id.raise : Act V σ α) id'.raise :=
  agreedThen (quietly (emit _ _)) fun _ grown _ => unwind (.unwound (grown _ linked))

theorem collect (linked : names.Links id id') (keys : List (Key V)) :
    Follows peers names Likeness.payload.listed (Parcel.collect id keys : Quiet V σ _)
      (Parcel.collect id' keys) := by
  induction keys generalizing names with
  | nil => exact still .nil
  | cons key rest ih =>
      refine seq (takeFor key linked) fun middle grown taken taken' alike => ?_
      refine seq (ih (grown _ linked)) fun later further _ _ others => ?_
      cases alike with
      | none => exact still others
      | some alike =>
          exact still (.cons (.mk key ((Likeness.value key).mono further alike)) others)

theorem identify {object object' : Thrown V} (alike : Thrown.Like names object object') :
    Follows peers names .id (object.identify : Quiet V σ FailureId) object'.identify := by
  cases alike with
  | unwound linked | identity linked => exact still linked
  | phrase | message | foreign => exact mint

variable (impartial : peers.Impartial (V := V))
include impartial

theorem keep {object object' : Thrown V} (alike : Thrown.Like names object object') :
    Follows peers names .id (object.keep : Quiet V σ FailureId) object'.keep := by
  refine seq (identify alike) fun later grown id id' linked => ?_
  refine agreed (emit _ _) fun middle further _ => ?_
  refine agreed (discarding (record impartial (further _ linked) ?_)) fun _ last _ =>
    still (last _ (further _ linked))
  exact Likeness.thrown.mono (grown.trans further) alike

theorem unpack {parcel parcel' : Parcel V} (alike : Parcel.Like names parcel parcel') :
    Follows peers names .id (parcel.unpack : Quiet V σ FailureId) parcel'.unpack := by
  obtain ⟨linked, alike⟩ := alike
  refine agreed (emit _ _) fun later grown _ => ?_
  refine agreed (recordAll impartial (Likeness.mono _ grown alike) (grown _ linked))
    fun _ further _ => still (further _ (grown _ linked))

end Failures

section Lending

variable (impartial : peers.Impartial (V := V)) {key : Key V} {id id' : FailureId}
include impartial

theorem lend (linked : names.Links id id') {use use' : key.Value → Act V σ α}
    (follows : (Likeness.code peers (.value key) like).At names use use') :
    Act.Follows peers names like.optional (Slot.lend key id.raw use)
      (Slot.lend key id'.raw use') := by
  refine andThen (quietly (stack key)) fun middle grown now now' frames => ?_
  have tops := Stack.top?_alike frames
  generalize now.top? = top at tops ⊢
  generalize now'.top? = top' at tops ⊢
  cases tops with
  | none => exact returns .none
  | some top =>
      refine andThen (quietly (takeFor key (grown _ linked))) fun later further _ _ taken => ?_
      cases taken with
      | none => exact returns .none
      | some alike =>
          refine mapped ?_ fun _ _ _ _ alike => .some alike
          rw [top.owner]
          exact ensuring (follows later (grown.trans further) _ _ alike)
            (restore impartial _ (further _ (grown _ linked)) alike)

theorem during (scope : Scope V) {body body' : OpenScope V → Act V σ α}
    (follows : (Likeness.code peers .same like).At names body body') :
    Act.Follows peers names like (scope.during body) (scope.during body') := by
  refine agreedThen (quietly (enter scope)) fun later grown active => ?_
  exact ensuring (follows later grown active active rfl) (leave impartial active)

end Lending

section Guards

variable {guard guard' : Guard V (Deferred V σ)} {context context' : Context V (Deferred V σ)}

theorem arm (alike : Context.Like peers names context context') :
    Follows peers names (Likeness.guard peers) (Guard.arm context : Quiet V σ _)
      (Guard.arm context') := by
  refine seq current fun middle grown baseline baseline' baselines => ?_
  refine agreed unwinding fun later further unwinds => still ?_
  exact .mk ((Likeness.context peers).mono (grown.trans further) alike)
    (Likeness.mono _ further baselines) unwinds

theorem target (alike : Guard.Like peers names guard guard') :
    Follows peers names Likeness.id.optional (guard.target : Quiet V σ _) guard'.target := by
  obtain ⟨_, baselines, wasUnwinding⟩ := alike
  refine seq current fun middle grown now now' currents => ?_
  have same := Likeness.optional_eq_iff Renaming.Links.eq_iff currents
    (Likeness.mono _ grown baselines)
  simp only [ne_eq, same]
  split
  · exact still currents
  · refine agreed unwinding fun later further unwinds => ?_
    cases unwinds && !wasUnwinding with
    | false => exact still .none
    | true => exact seq reserve fun _ _ _ _ linked => still (.some linked)

variable (impartial : peers.Impartial (V := V))
include impartial

theorem dismiss (alike : Guard.Like peers names guard guard') :
    Follows peers names .same (guard.dismiss : Quiet V σ Unit) guard'.dismiss := by
  obtain ⟨contexts, _, _⟩ := alike
  cases contexts with
  | prepared alike => exact releaseAll impartial alike
  | deferred => exact still rfl

theorem fire (alike : Context.Like peers names context context') {id id' : FailureId}
    (linked : names.Links id id') :
    Act.Follows peers names Likeness.same (Guard.fire (fun _ code => code) context id : Act V σ _)
      (Guard.fire (fun _ code => code) context' id') := by
  cases alike with
  | prepared alike => exact quietly (recordAll impartial alike linked)
  | deferred key follows =>
      refine agreedThen (quietly (isOpen key)) fun middle grown opened => ?_
      cases opened with
      | false => exact quietly (noteStray key (grown _ linked))
      | true =>
          refine andThen (follows.mono grown) fun later further value value' alike => ?_
          have recorded := record impartial (further _ (grown _ linked)) alike
          exact mapped (quietly recorded) fun _ _ _ _ _ => rfl

theorem drop (alike : Guard.Like peers names guard guard') :
    Act.Follows peers names Likeness.same (guard.drop fun _ code => code : Act V σ Unit)
      (guard'.drop fun _ code => code) := by
  refine andThen (quietly (target alike)) fun later grown aim aim' aims => ?_
  cases aims with
  | none => exact quietly (dismiss impartial ((Likeness.guard peers).mono grown alike))
  | some linked =>
      obtain ⟨contexts, _, _⟩ := alike
      exact fire impartial ((Likeness.context peers).mono grown contexts) linked

end Guards

end Follows

end FaultRelay

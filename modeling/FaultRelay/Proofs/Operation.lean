import FaultRelay.Proofs.FollowingHandlers

/-! The operations that programs are made of, and what a program is told by each. An operation
follows the same operation on identities that correspond, so that both programs are told alike. -/
namespace FaultRelay

variable {V : Vocabulary} [Naming V] {σ α : Type}

inductive Reply (V : Vocabulary) (σ : Type) where
  | done
  | flag (flag : Bool)
  | count (count : Nat)
  | identity (id : FailureId)
  | identity? (id? : Option FailureId)
  | tag (tag : Option Nat)
  | value (key : Key V) (value : Option key.Value)
  | closed (key : Key V) (answer : Closed key.Value)
  | stored (key : Key V) (answer : Stored key.Value)
  | settings (settings : Settings)
  | scope (active : OpenScope V)
  | guard (guard : Guard V (Deferred V σ))
  | payloads (payloads : List (Payload V))
  | parcel (parcel : Parcel V)
  | readings (readings : List (Reading V))
  | handled (reply : Reply V σ)
  | unmatched (id : FailureId)
  | unwound (object : Thrown V)
  | aborted

/-- What a program can have its thread do. -/
inductive Operation (V : Vocabulary) (σ : Type) where
  | mint
  | reserve
  | current
  | newFailure (payloads : List (Payload V))
  | record (key : Key V) (value : key.Value) (id : FailureId)
  | openFor (key : Key V) (owner : Token)
  | close (key : Key V) (owner : Token)
  | put (key : Key V) (id : FailureId) (value : key.Value)
  | editTop (key : Key V) (change : Option (Nat × key.Value) → Option (Nat × key.Value))
  | isOpen (key : Key V)
  | depth (key : Key V)
  | topId (key : Key V)
  | holds (key : Key V) (id : FailureId)
  | valueFor (key : Key V) (id : FailureId)
  | takeFor (key : Key V) (id : FailureId)
  | lend (key : Key V) (id : FailureId) (use : key.Value → Act V σ (Reply V σ))
  | enter (scope : Scope V)
  | leave (active : OpenScope V)
  | arm (context : Context V (Deferred V σ))
  | target (guard : Guard V (Deferred V σ))
  | dismiss (guard : Guard V (Deferred V σ))
  | drop (guard : Guard V (Deferred V σ))
  | declare (arguments : List (Argument V))
  | dispatch (chain : Chain V σ (Reply V σ)) (id : FailureId)
  | dispatchTotal (total : TotalChain V σ (Reply V σ)) (id : FailureId)
  | handleAll (body : Act V σ (Except FailureId (Reply V σ))) (total : TotalChain V σ (Reply V σ))
  | handleSome (body : Act V σ (Except FailureId (Reply V σ)))
      (chain : Chain V σ (Except FailureId (Reply V σ)))
  | catchUnwinding (body : Act V σ (Reply V σ)) (total : TotalChain V σ (Reply V σ))
  | catchBoth (body : Act V σ (Except FailureId (Reply V σ))) (total : TotalChain V σ (Reply V σ))
  | pack (keys : List (Key V)) (body : Act V σ (Except FailureId (Reply V σ)))
  | collect (id : FailureId) (keys : List (Key V))
  | unpack (parcel : Parcel V)
  | release (payloads : List (Payload V))
  | raise (id : FailureId)
  | unwind (object : Thrown V)
  | unwinding
  /-- Catches what the thread unwinds with. -/
  | stop
  | identify (object : Thrown V)
  | keep (object : Thrown V)
  | inForce
  | adopt (settings : Settings)
  | tallying
  | types
  | endStorage

namespace Operation

variable [Host V σ]

def run : Operation V σ → Act V σ (Reply V σ)
  | mint => .identity <$> quietly FailureId.mint
  | reserve => .identity <$> quietly FailureId.reserve
  | current => .identity? <$> quietly FailureId.current
  | newFailure payloads => .identity <$> quietly (FaultRelay.newFailure payloads)
  | record key value id => .flag <$> quietly (FaultRelay.record key value id)
  | openFor key owner => .count <$> quietly (Slot.openFor key owner)
  | close key owner => .closed key <$> quietly (Slot.close key owner)
  | put key id value => .stored key <$> quietly (Slot.put key id.raw value)
  | editTop key change => .flag <$> quietly (Slot.editTop key change)
  | isOpen key => .flag <$> quietly (Slot.isOpen key)
  | depth key => .count <$> quietly (Slot.depth key)
  | topId key => .tag <$> quietly (Slot.topId? key)
  | holds key id => .flag <$> quietly (Slot.holds key id.raw)
  | valueFor key id => .value key <$> quietly (Slot.valueFor key id.raw)
  | takeFor key id => .value key <$> quietly (Slot.takeFor key id.raw)
  | lend key id use => (·.elim .done .handled) <$> Slot.lend key id.raw use
  | enter scope => .scope <$> quietly scope.enter
  | leave active => (fun _ => .done) <$> quietly active.leave
  | arm context => .guard <$> quietly (Guard.arm context)
  | target guard => .identity? <$> quietly guard.target
  | dismiss guard => (fun _ => .done) <$> quietly guard.dismiss
  | drop guard => (fun _ => .done) <$> guard.drop fun _ code => code
  | declare arguments =>
      (fun _ => .done) <$>
        (Handler.make arguments [] fun _ => return () : Act V σ (Handler V σ Unit))
  | dispatch chain id => do
      match ← chain.dispatch id with
      | .handled reply => return .handled reply
      | .unmatched id => return .unmatched id
  | dispatchTotal total id => .handled <$> total.dispatch id
  | handleAll body total => .handled <$> FaultRelay.handleAll body total
  | handleSome body chain => do
      match ← FaultRelay.handleSome body chain with
      | .ok reply => return .handled reply
      | .error id => return .unmatched id
  | catchUnwinding body total => .handled <$> FaultRelay.catchUnwinding body total
  | catchBoth body total => .handled <$> FaultRelay.catchBoth body total
  | pack keys body => do
      match ← Parcel.pack keys body with
      | .ok reply => return .handled reply
      | .error parcel => return .parcel parcel
  | collect id keys => .payloads <$> quietly (Parcel.collect id keys)
  | unpack parcel => .identity <$> quietly parcel.unpack
  | release payloads => (fun _ => .done) <$> quietly (releaseAll payloads)
  | raise id => id.raise
  | unwind object => Act.unwind object
  | unwinding => .flag <$> quietly Guard.unwinding
  | stop => (fun _ => .done) <$> quietly (Quiet.modifyThread fun thread =>
      { thread with unwindings := thread.unwindings - 1 })
  | identify object => .identity <$> quietly object.identify
  | keep object => .identity <$> quietly object.keep
  | inForce => .settings <$> quietly Settings.inForce
  | adopt settings => .flag <$> quietly settings.adopt
  | tallying => .flag <$> quietly FaultRelay.tallying
  | types => .count <$> quietly Slot.types
  | endStorage => (fun _ => .done) <$> quietly Slot.endStorage

/-- Runs the operation; if it unwinds, the program is told so. -/
def perform (operation : Operation V σ) : Quiet V σ (Reply V σ) := fun world =>
  let (ended, later) := operation.run world
  match ended with
  | .ok reply => (reply, later)
  | .error (.unwinding object) => (.unwound object, later)
  | .error .aborted => (.aborted, later)

end Operation

section Likenesses

variable [Host V σ] (peers : Peers σ)

inductive Reply.Like (names : Renaming) : Reply V σ → Reply V σ → Prop
  | done : Like names .done .done
  | flag (flag : Bool) : Like names (.flag flag) (.flag flag)
  | count (count : Nat) : Like names (.count count) (.count count)
  | identity {id id' : FailureId} (linked : names.Links id id') :
      Like names (.identity id) (.identity id')
  | identity? {id? id?' : Option FailureId} (alike : Likeness.id.optional.At names id? id?') :
      Like names (.identity? id?) (.identity? id?')
  | tag {tag tag' : Option Nat} (alike : Likeness.tag.optional.At names tag tag') :
      Like names (.tag tag) (.tag tag')
  | value (key : Key V) {value value' : Option key.Value}
      (alike : (Likeness.value key).optional.At names value value') :
      Like names (.value key value) (.value key value')
  | closed (key : Key V) {answer answer' : Closed key.Value}
      (alike : (Likeness.value key).closed.At names answer answer') :
      Like names (.closed key answer) (.closed key answer')
  | stored (key : Key V) {answer answer' : Stored key.Value}
      (alike : (Likeness.value key).stored.At names answer answer') :
      Like names (.stored key answer) (.stored key answer')
  | settings (settings : Settings) : Like names (.settings settings) (.settings settings)
  | scope (active : OpenScope V) : Like names (.scope active) (.scope active)
  | guard {guard guard' : Guard V (Deferred V σ)} (alike : Guard.Like peers names guard guard') :
      Like names (.guard guard) (.guard guard')
  | payloads {payloads payloads' : List (Payload V)}
      (alike : Likeness.payload.listed.At names payloads payloads') :
      Like names (.payloads payloads) (.payloads payloads')
  | parcel {parcel parcel' : Parcel V} (alike : Parcel.Like names parcel parcel') :
      Like names (.parcel parcel) (.parcel parcel')
  | readings {readings readings' : List (Reading V)}
      (alike : Likeness.reading.listed.At names readings readings') :
      Like names (.readings readings) (.readings readings')
  | handled {reply reply' : Reply V σ} (alike : Like names reply reply') :
      Like names (.handled reply) (.handled reply')
  | unmatched {id id' : FailureId} (linked : names.Links id id') :
      Like names (.unmatched id) (.unmatched id')
  | unwound {object object' : Thrown V} (alike : Thrown.Like names object object') :
      Like names (.unwound object) (.unwound object')
  | aborted : Like names .aborted .aborted

def Likeness.reply : Likeness (Reply V σ) where
  At := Reply.Like peers
  mono grown alike := by
    induction alike with
    | done => exact .done
    | flag flag => exact .flag flag
    | count count => exact .count count
    | identity linked => exact .identity (grown _ linked)
    | identity? alike => exact .identity? (Likeness.mono _ grown alike)
    | tag alike => exact .tag (Likeness.mono _ grown alike)
    | value key alike => exact .value key (Likeness.mono _ grown alike)
    | closed key alike => exact .closed key (Likeness.mono _ grown alike)
    | stored key alike => exact .stored key (Likeness.mono _ grown alike)
    | settings settings => exact .settings settings
    | scope active => exact .scope active
    | guard alike => exact .guard ((Likeness.guard peers).mono grown alike)
    | payloads alike => exact .payloads (Likeness.mono _ grown alike)
    | parcel alike => exact .parcel (Likeness.parcel.mono grown alike)
    | readings alike => exact .readings (Likeness.mono _ grown alike)
    | handled _ ih => exact .handled ih
    | unmatched linked => exact .unmatched (grown _ linked)
    | unwound alike => exact .unwound (Likeness.thrown.mono grown alike)
    | aborted => exact .aborted

inductive Operation.Like (names : Renaming) : Operation V σ → Operation V σ → Prop
  | mint : Like names .mint .mint
  | reserve : Like names .reserve .reserve
  | current : Like names .current .current
  | newFailure {payloads payloads' : List (Payload V)}
      (alike : Likeness.payload.listed.At names payloads payloads') :
      Like names (.newFailure payloads) (.newFailure payloads')
  | record (key : Key V) {value value' : key.Value}
      (alike : (Likeness.value key).At names value value') {id id' : FailureId}
      (linked : names.Links id id') : Like names (.record key value id) (.record key value' id')
  | openFor (key : Key V) (owner : Token) : Like names (.openFor key owner) (.openFor key owner)
  | close (key : Key V) (owner : Token) : Like names (.close key owner) (.close key owner)
  | put (key : Key V) {id id' : FailureId} (linked : names.Links id id') {value value' : key.Value}
      (alike : (Likeness.value key).At names value value') :
      Like names (.put key id value) (.put key id' value')
  | editTop (key : Key V) {change change' : Option (Nat × key.Value) → Option (Nat × key.Value)}
      (changes : ∀ later, names ≤ later → ∀ held held',
        (Likeness.tag.both (.value key)).optional.At later held held' →
        (Likeness.tag.both (.value key)).optional.At later (change held) (change' held')) :
      Like names (.editTop key change) (.editTop key change')
  | isOpen (key : Key V) : Like names (.isOpen key) (.isOpen key)
  | depth (key : Key V) : Like names (.depth key) (.depth key)
  | topId (key : Key V) : Like names (.topId key) (.topId key)
  | holds (key : Key V) {id id' : FailureId} (linked : names.Links id id') :
      Like names (.holds key id) (.holds key id')
  | valueFor (key : Key V) {id id' : FailureId} (linked : names.Links id id') :
      Like names (.valueFor key id) (.valueFor key id')
  | takeFor (key : Key V) {id id' : FailureId} (linked : names.Links id id') :
      Like names (.takeFor key id) (.takeFor key id')
  | lend (key : Key V) {id id' : FailureId} (linked : names.Links id id')
      {use use' : key.Value → Act V σ (Reply V σ)}
      (follows : (Likeness.code peers (.value key) (.reply peers)).At names use use') :
      Like names (.lend key id use) (.lend key id' use')
  | enter (scope : Scope V) : Like names (.enter scope) (.enter scope)
  | leave (active : OpenScope V) : Like names (.leave active) (.leave active)
  | arm {context context' : Context V (Deferred V σ)}
      (alike : Context.Like peers names context context') :
      Like names (.arm context) (.arm context')
  | target {guard guard' : Guard V (Deferred V σ)} (alike : Guard.Like peers names guard guard') :
      Like names (.target guard) (.target guard')
  | dismiss {guard guard' : Guard V (Deferred V σ)} (alike : Guard.Like peers names guard guard') :
      Like names (.dismiss guard) (.dismiss guard')
  | drop {guard guard' : Guard V (Deferred V σ)} (alike : Guard.Like peers names guard guard') :
      Like names (.drop guard) (.drop guard')
  | declare (arguments : List (Argument V)) : Like names (.declare arguments) (.declare arguments)
  | dispatch {chain chain' : Chain V σ (Reply V σ)}
      (alike : (Likeness.chain peers (.reply peers)).At names chain chain') {id id' : FailureId}
      (linked : names.Links id id') : Like names (.dispatch chain id) (.dispatch chain' id')
  | dispatchTotal {total total' : TotalChain V σ (Reply V σ)}
      (alike : (Likeness.chain peers (.reply peers)).At names total.chain total'.chain)
      {id id' : FailureId} (linked : names.Links id id') :
      Like names (.dispatchTotal total id) (.dispatchTotal total' id')
  | handleAll {body body' : Act V σ (Except FailureId (Reply V σ))}
      (follows : Act.Follows peers names (Likeness.id.either (.reply peers)) body body')
      {total total' : TotalChain V σ (Reply V σ)}
      (alike : (Likeness.chain peers (.reply peers)).At names total.chain total'.chain) :
      Like names (.handleAll body total) (.handleAll body' total')
  | handleSome {body body' : Act V σ (Except FailureId (Reply V σ))}
      (follows : Act.Follows peers names (Likeness.id.either (.reply peers)) body body')
      {chain chain' : Chain V σ (Except FailureId (Reply V σ))}
      (alike : (Likeness.chain peers (Likeness.id.either (.reply peers))).At names chain chain') :
      Like names (.handleSome body chain) (.handleSome body' chain')
  | catchUnwinding {body body' : Act V σ (Reply V σ)}
      (follows : Act.Follows peers names (.reply peers) body body')
      {total total' : TotalChain V σ (Reply V σ)}
      (alike : (Likeness.chain peers (.reply peers)).At names total.chain total'.chain) :
      Like names (.catchUnwinding body total) (.catchUnwinding body' total')
  | catchBoth {body body' : Act V σ (Except FailureId (Reply V σ))}
      (follows : Act.Follows peers names (Likeness.id.either (.reply peers)) body body')
      {total total' : TotalChain V σ (Reply V σ)}
      (alike : (Likeness.chain peers (.reply peers)).At names total.chain total'.chain) :
      Like names (.catchBoth body total) (.catchBoth body' total')
  | pack (keys : List (Key V)) {body body' : Act V σ (Except FailureId (Reply V σ))}
      (follows : Act.Follows peers names (Likeness.id.either (.reply peers)) body body') :
      Like names (.pack keys body) (.pack keys body')
  | collect {id id' : FailureId} (linked : names.Links id id') (keys : List (Key V)) :
      Like names (.collect id keys) (.collect id' keys)
  | unpack {parcel parcel' : Parcel V} (alike : Parcel.Like names parcel parcel') :
      Like names (.unpack parcel) (.unpack parcel')
  | release {payloads payloads' : List (Payload V)}
      (alike : Likeness.payload.listed.At names payloads payloads') :
      Like names (.release payloads) (.release payloads')
  | raise {id id' : FailureId} (linked : names.Links id id') : Like names (.raise id) (.raise id')
  | unwind {object object' : Thrown V} (alike : Thrown.Like names object object') :
      Like names (.unwind object) (.unwind object')
  | unwinding : Like names .unwinding .unwinding
  | stop : Like names .stop .stop
  | identify {object object' : Thrown V} (alike : Thrown.Like names object object') :
      Like names (.identify object) (.identify object')
  | keep {object object' : Thrown V} (alike : Thrown.Like names object object') :
      Like names (.keep object) (.keep object')
  | inForce : Like names .inForce .inForce
  | adopt (settings : Settings) : Like names (.adopt settings) (.adopt settings)
  | tallying : Like names .tallying .tallying
  | types : Like names .types .types
  | endStorage : Like names .endStorage .endStorage

end Likenesses

namespace Follows

variable [Host V σ] {peers : Peers σ} {names : Renaming}

theorem tells {act act' : Quiet V σ α} (follows : Follows peers names .same act act')
    (reply : α → Reply V σ) (told : ∀ now value, Reply.Like peers now (reply value) (reply value)) :
    Act.Follows peers names (.reply peers) (reply <$> FaultRelay.quietly act)
      (reply <$> FaultRelay.quietly act') := by
  refine mapped (quietly follows) ?_
  rintro now _ value _ rfl
  exact told now value

theorem run (impartial : peers.Impartial (V := V)) {operation operation' : Operation V σ}
    (alike : Operation.Like peers names operation operation') :
    Act.Follows peers names (.reply peers) operation.run operation'.run := by
  cases alike with
  | mint => exact mapped (quietly mint) fun _ _ _ _ linked => .identity linked
  | reserve => exact mapped (quietly reserve) fun _ _ _ _ linked => .identity linked
  | current => exact mapped (quietly current) fun _ _ _ _ alike => .identity? alike
  | newFailure alike =>
      exact mapped (quietly (newFailure impartial alike)) fun _ _ _ _ linked => .identity linked
  | record key alike linked => exact tells (record impartial linked alike) .flag fun _ => .flag
  | openFor key owner => exact tells (openFor key owner) .count fun _ => .count
  | close key owner =>
      exact mapped (quietly (close key owner)) fun _ _ _ _ alike => .closed key alike
  | put key linked alike =>
      exact mapped (quietly (put linked alike)) fun _ _ _ _ alike => .stored key alike
  | editTop key changes => exact tells (editTop changes) .flag fun _ => .flag
  | isOpen key => exact tells (isOpen key) .flag fun _ => .flag
  | depth key => exact tells (depth key) .count fun _ => .count
  | topId key => exact mapped (quietly (topId? key)) fun _ _ _ _ alike => .tag alike
  | holds key linked => exact tells (holds key linked) .flag fun _ => .flag
  | valueFor key linked =>
      exact mapped (quietly (valueFor key linked)) fun _ _ _ _ alike => .value key alike
  | takeFor key linked =>
      exact mapped (quietly (takeFor key linked)) fun _ _ _ _ alike => .value key alike
  | lend key linked follows =>
      refine mapped (lend impartial linked follows) fun _ _ _ _ alike => ?_
      cases alike with
      | none => exact .done
      | some alike => exact .handled alike
  | enter scope => exact tells (enter scope) .scope fun _ => .scope
  | leave active => exact tells (leave impartial active) _ fun _ _ => .done
  | arm alike => exact mapped (quietly (arm alike)) fun _ _ _ _ alike => .guard alike
  | target alike => exact mapped (quietly (target alike)) fun _ _ _ _ alike => .identity? alike
  | dismiss alike => exact tells (dismiss impartial alike) _ fun _ _ => .done
  | drop alike => exact mapped (drop impartial alike) fun _ _ _ _ _ => .done
  | declare arguments =>
      have silent : (Likeness.code peers (Likeness.reading (V := V)).listed .same).At names
          (fun _ => return ()) (fun _ => return ()) := fun _ _ _ _ _ => returns rfl
      exact mapped (make impartial arguments .nil silent) fun _ _ _ _ _ => .done
  | dispatch alike linked =>
      refine andThen (dispatch impartial linked alike) fun _ _ _ _ alike => ?_
      cases alike with
      | handled alike => exact returns (.handled alike)
      | unmatched linked => exact returns (.unmatched linked)
  | dispatchTotal alike linked =>
      exact mapped (dispatchTotal impartial linked alike) fun _ _ _ _ alike => .handled alike
  | handleAll follows alike =>
      exact mapped (handleAll impartial follows alike) fun _ _ _ _ alike => .handled alike
  | handleSome follows alike =>
      refine andThen (handleSome impartial follows alike) fun _ _ _ _ ends => ?_
      cases ends with
      | returned alike => exact returns (.handled alike)
      | failed linked => exact returns (.unmatched linked)
  | catchUnwinding follows alike =>
      exact mapped (catchUnwinding impartial follows alike) fun _ _ _ _ alike => .handled alike
  | catchBoth follows alike =>
      exact mapped (catchBoth impartial follows alike) fun _ _ _ _ alike => .handled alike
  | pack keys follows =>
      refine andThen (pack impartial keys follows) fun _ _ _ _ ends => ?_
      cases ends with
      | returned alike => exact returns (.handled alike)
      | failed alike => exact returns (.parcel alike)
  | collect linked keys =>
      exact mapped (quietly (collect linked keys)) fun _ _ _ _ alike => .payloads alike
  | unpack alike =>
      exact mapped (quietly (unpack impartial alike)) fun _ _ _ _ linked => .identity linked
  | release alike => exact tells (releaseAll impartial alike) _ fun _ _ => .done
  | raise linked => exact raise linked
  | unwind alike => exact unwind alike
  | unwinding => exact tells unwinding .flag fun _ => .flag
  | stop =>
      refine tells (changes _ _ fun _ _ _ _ threads => ?_) _ fun _ _ => .done
      exact { threads with unwindings := congrArg (· - 1) threads.unwindings }
  | identify alike =>
      exact mapped (quietly (identify alike)) fun _ _ _ _ linked => .identity linked
  | keep alike =>
      exact mapped (quietly (keep impartial alike)) fun _ _ _ _ linked => .identity linked
  | inForce => exact tells inForce .settings fun _ => .settings
  | adopt settings => exact tells (adopt settings) .flag fun _ => .flag
  | tallying => exact tells tallying .flag fun _ => .flag
  | types => exact tells types .count fun _ => .count
  | endStorage => exact tells (endStorage impartial) _ fun _ _ => .done

theorem perform (impartial : peers.Impartial (V := V)) {operation operation' : Operation V σ}
    (alike : Operation.Like peers names operation operation') :
    Follows peers names (.reply peers) operation.perform operation'.perform := by
  intro now grown world world' worlds
  obtain ⟨later, draws, alike, worlds⟩ := run impartial alike now grown _ _ worlds
  unfold Operation.perform
  rcases ran : operation.run world with ⟨ended, after⟩
  rcases ran' : operation'.run world' with ⟨ended', after'⟩
  rw [ran, ran'] at draws alike worlds
  cases alike with
  | returned alike => exact ⟨later, draws, alike, worlds⟩
  | failed exits =>
      cases exits with
      | unwinding alike => exact ⟨later, draws, .unwound alike, worlds⟩
      | aborted => exact ⟨later, draws, .aborted, worlds⟩

end Follows

end FaultRelay

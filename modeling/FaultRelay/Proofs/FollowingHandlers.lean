import FaultRelay.Handler.Block
import FaultRelay.Proofs.FollowingCode

/-! Handlers, and the blocks that dispatch to them, follow as well. What a handler is given is found
by the identity of the failure, and what is there decides which handler is selected. A panic of the
relay may name the failure in its text, and then the texts differ by the renaming. -/
namespace FaultRelay

variable {V : Vocabulary} [Naming V] {σ α β : Type}

section Code

variable [Host V σ] (peers : Peers σ)

inductive Condition.Like (names : Renaming) : Condition V σ → Condition V σ → Prop
  | holds (key : Key V) {test test' : key.Value → Act V σ Bool}
      (follows : (Likeness.code peers (.value key) .same).At names test test') :
      Like names (.holds key test) (.holds key test')
  | thrown (type : ThrownType V) : Like names (.thrown type) (.thrown type)

def Likeness.condition : Likeness (Condition V σ) where
  At := Condition.Like peers
  mono grown alike := by
    cases alike with
    | holds key follows => exact .holds key (Likeness.mono _ grown follows)
    | thrown type => exact .thrown type

inductive Handler.Like (like : Likeness β) (names : Renaming) :
    Handler V σ β → Handler V σ β → Prop
  | mk (arguments : List (Argument V)) {conditions conditions' : List (Condition V σ)}
      {respond respond' : List (Reading V) → Act V σ β}
      (alike : (Likeness.condition peers).listed.At names conditions conditions')
      (follows : (Likeness.code peers Likeness.reading.listed like).At names respond respond') :
      Like like names ⟨arguments, conditions, respond⟩ ⟨arguments, conditions', respond'⟩

def Likeness.handler (like : Likeness β) : Likeness (Handler V σ β) where
  At := Handler.Like peers like
  mono := fun grown ⟨arguments, alike, follows⟩ =>
    ⟨arguments, Likeness.mono _ grown alike, Likeness.mono _ grown follows⟩

def Likeness.chain (like : Likeness β) : Likeness (Chain V σ β) where
  At names chain chain' :=
    (Likeness.handler peers like).listed.At names chain.handlers chain'.handlers ∧
      chain.interest = chain'.interest
  mono grown alike := ⟨Likeness.mono _ grown alike.1, alike.2⟩

end Code

section Keys

variable [Host V σ] {peers : Peers σ} {names : Renaming} {like : Likeness β}

theorem Handler.Like.interest {handler handler' : Handler V σ β}
    (alike : Handler.Like peers like names handler handler') :
    handler.interest = handler'.interest := by
  obtain ⟨arguments, alike, _⟩ := alike
  unfold Handler.interest
  congr 1
  induction alike with
  | nil => rfl
  | cons first _ ih =>
      rw [List.map_cons, List.map_cons, ih]
      cases first <;> rfl

theorem Scope.forHandlers_alike {handlers handlers' : List (Handler V σ β)}
    (alike : (Likeness.handler peers like).listed.At names handlers handlers') :
    Scope.forHandlers handlers = Scope.forHandlers handlers' := by
  have same : handlers.flatMap (fun handler => handler.interest.declarations) =
      handlers'.flatMap fun handler => handler.interest.declarations := by
    induction alike with
    | nil => rfl
    | cons first _ ih => rw [List.flatMap_cons, List.flatMap_cons, ih, first.interest]
  exact congrArg (fun declarations => (⟨.ofList declarations⟩ : Scope V)) same

end Keys

namespace Follows

variable [Host V σ] {peers : Peers σ} {names : Renaming} {other : Likeness β}

section Arguments

variable {case case' : Case V}

theorem thrownIs (type : ThrownType V) {id id' : FailureId} (linked : names.Links id id') :
    Follows peers names .same (Argument.thrownIs type id : Quiet V σ Bool)
      (Argument.thrownIs type id') := by
  refine seq (valueFor .thrown linked) fun _ _ _ _ alike => ?_
  cases alike with
  | none => exact still rfl
  | some alike => exact still (alike.hasType type)

theorem message? {id id' : FailureId} (linked : names.Links id id') :
    Follows peers names Likeness.wording.optional (Argument.message? id : Quiet V σ _)
      (Argument.message? id') := by
  refine seq (valueFor .thrown linked) fun _ _ _ _ alike => ?_
  cases alike with
  | none => exact still .none
  | some alike => exact still alike.text?

theorem presentNames {id id' : FailureId} (linked : names.Links id id') (keys : List (Key V)) :
    Follows peers names .same (Argument.presentNames id keys : Quiet V σ (List String))
      (Argument.presentNames id' keys) := by
  induction keys generalizing names with
  | nil => exact still rfl
  | cons key rest ih =>
      refine agreed (holds key linked) fun middle grown held => ?_
      refine agreed (ih (grown _ linked)) fun _ _ others => ?_
      exact still rfl

theorem makeReport (cases : Likeness.case.At names case case') :
    Follows peers names .report (Argument.makeReport case : Quiet V σ Report)
      (Argument.makeReport case') := by
  obtain ⟨id, interest⟩ := case
  obtain ⟨id', interest'⟩ := case'
  obtain ⟨linked, rfl⟩ : names.Links id id' ∧ interest = interest' := cases
  refine agreed (presentNames linked _) fun first grown present => ?_
  refine agreed (holds .thrown (grown _ linked)) fun second further unwound => ?_
  refine seq (valueFor .tally (further _ (grown _ linked))) fun last on _ _ tallies => ?_
  have same := tallies
  cases same with
  | none => exact still (.mk (on _ (further _ (grown _ linked))) unwound present none)
  | @some tally _ same =>
      obtain rfl := same
      exact still (.mk (on _ (further _ (grown _ linked))) unwound present (some tally))

variable (impartial : peers.Impartial (V := V))
include impartial

theorem available (argument : Argument V) (cases : Likeness.case.At names case case') :
    Follows peers names .same (argument.available case : Quiet V σ Bool)
      (argument.available case') := by
  cases argument with
  | take key | copy key => exact holds key cases.1
  | thrown type => exact thrownIs type cases.1
  | message =>
      exact seq (message? cases.1) fun _ _ _ _ alike => still (Likeness.isSome_eq alike)
  | optional | summary | report => exact still rfl
  | custom argument => exact impartial.available names argument cases

theorem takeThrown (type : ThrownType V) {id id' : FailureId} (linked : names.Links id id') :
    Follows peers names Likeness.thrown.optional (Argument.takeThrown type id : Quiet V σ _)
      (Argument.takeThrown type id') := by
  refine seq (takeFor .thrown linked) fun later grown _ _ alike => ?_
  cases alike with
  | none => exact still .none
  | @some object object' alike =>
      have recorded : Follows peers later .same
          (FaultRelay.record .thrown object id : Quiet V σ Bool)
          (FaultRelay.record .thrown object' id') := record impartial (grown _ linked) alike
      simp only [Thrown.Like.hasType alike]
      split
      · exact still (.some alike)
      · exact agreed (discarding recorded) fun _ _ _ => still .none

theorem produce (argument : Argument V) (cases : Likeness.case.At names case case') :
    Follows peers names Likeness.reading.optional (argument.produce case : Quiet V σ _)
      (argument.produce case') := by
  induction argument generalizing names with
  | take key =>
      exact seq (takeFor key cases.1) fun _ _ _ _ alike =>
        still (Likeness.optional_map alike (.take key))
  | copy key =>
      exact seq (valueFor key cases.1) fun _ _ _ _ alike =>
        still (Likeness.optional_map alike (.copy key))
  | optional inner ih =>
      refine agreed (available impartial inner cases) fun later grown some => ?_
      cases some with
      | false => exact still (.some .missing)
      | true =>
          refine seq (ih (Likeness.case.mono grown cases)) fun _ _ _ _ alike => ?_
          cases alike with
          | none => exact still (.some .missing)
          | some alike => exact still (.some (.optional alike))
  | thrown type =>
      exact seq (takeThrown impartial type cases.1) fun _ _ _ _ alike =>
        still (Likeness.optional_map alike .thrown)
  | message =>
      exact seq (message? cases.1) fun _ _ _ _ alike =>
        still (Likeness.optional_map alike .message)
  | summary =>
      refine agreed (holds .thrown cases.1) fun _ grown unwound => ?_
      exact still (.some (.summary (grown _ cases.1) unwound))
  | report => exact seq (makeReport cases) fun _ _ _ _ alike => still (.some (.report alike))
  | custom argument =>
      refine seq (impartial.produced names argument) fun _ _ _ _ products => ?_
      cases products with
      | none => exact still .none
      | some alike => exact still (.some (.custom alike))

theorem discardReading {reading reading' : Reading V}
    (alike : Reading.Like names reading reading') :
    Follows peers names .same (reading.discard : Quiet V σ Unit) reading'.discard := by
  induction alike with
  | take key alike => exact release impartial alike
  | optional _ ih => exact ih
  | missing | copy | thrown | message | summary | report | custom => exact still rfl

theorem announce (before : Interest V) (arguments : List (Argument V)) :
    Follows peers names .same (Arguments.announce before arguments : Quiet V σ Unit)
      (Arguments.announce before arguments) := by
  have each : ∀ (argument : Argument V) (count : Nat) (names : Renaming),
      Follows peers names .same (argument.announce count : Quiet V σ Unit)
        (argument.announce count) := by
    intro argument count names
    induction argument with
    | custom argument => exact impartial.declared names argument count
    | optional inner ih => exact ih
    | take | copy | thrown | message | summary | report => exact still rfl
  induction arguments generalizing before names with
  | nil => exact still rfl
  | cons argument rest ih => exact agreed (each argument before.size names) fun _ _ _ => ih _

theorem allAvailable (arguments : List (Argument V)) (cases : Likeness.case.At names case case') :
    Follows peers names .same (Arguments.available case arguments : Quiet V σ Bool)
      (Arguments.available case' arguments) := by
  induction arguments generalizing names with
  | nil => exact still rfl
  | cons argument rest ih =>
      refine agreed (available impartial argument cases) fun _ grown met => ?_
      cases met with
      | false => exact still rfl
      | true => exact ih (Likeness.case.mono grown cases)

/-- The same arguments, with readings that are alike as far as there are any. -/
abbrev places : Likeness (List (Arguments.Place V)) :=
  (Likeness.same.both Likeness.reading.optional).listed

theorem produceSome (taking : Bool) {before before' : List (Arguments.Place V)}
    (alike : places.At names before before') (cases : Likeness.case.At names case case') :
    Follows peers names (Likeness.same.both places)
      (Arguments.produceSome case taking before : Quiet V σ _)
      (Arguments.produceSome case' taking before') := by
  induction before generalizing before' names with
  | nil =>
      cases alike
      exact still ⟨rfl, .nil⟩
  | cons place rest ih =>
      cases alike with
      | @cons _ place' _ rest' first others =>
          obtain ⟨argument, reading⟩ := place
          obtain ⟨argument', reading'⟩ := place'
          obtain ⟨rfl, readings⟩ :
            argument = argument' ∧ Likeness.reading.optional.At names reading reading' := first
          unfold Arguments.produceSome
          split
          · refine seq (produce impartial argument cases) fun middle grown _ _ produced => ?_
            have others := places.mono grown others
            cases produced with
            | none => exact still ⟨rfl, .cons ⟨rfl, .none⟩ others⟩
            | some alike =>
                refine seq (ih others (Likeness.case.mono grown cases))
                  fun later further answer answer' answers => ?_
                exact still ⟨answers.1, .cons ⟨rfl, .some (Likeness.reading.mono further alike)⟩
                  answers.2⟩
          · refine seq (ih others cases) fun later grown answer answer' answers => ?_
            exact still ⟨answers.1, .cons ⟨rfl, Likeness.mono _ grown readings⟩ answers.2⟩

theorem produceAll (arguments : List (Argument V)) (cases : Likeness.case.At names case case') :
    Follows peers names Likeness.reading.listed.optional
      (Arguments.produce case arguments : Quiet V σ _) (Arguments.produce case' arguments) := by
  have start : places.At names (arguments.map fun argument => (argument, none))
      (arguments.map fun argument => (argument, none)) := by
    induction arguments with
    | nil => exact .nil
    | cons argument rest ih => exact .cons ⟨rfl, .none⟩ ih
  -- What was produced is handed out if it is complete, and ends otherwise.
  have finished : ∀ later (full full' : Bool × List (Arguments.Place V)),
      (Likeness.same.both places).At later full full' →
      Follows peers later Likeness.reading.listed.optional
        (if full.1 then pure (some (full.2.filterMap Prod.snd)) else do
          (full.2.filterMap Prod.snd).forM Reading.discard
          pure none : Quiet V σ _)
        (if full'.1 then pure (some (full'.2.filterMap Prod.snd)) else do
          (full'.2.filterMap Prod.snd).forM Reading.discard
          pure none) := by
    rintro later ⟨complete, full⟩ ⟨_, full'⟩ ⟨rfl, alike⟩
    have readings : Likeness.reading.listed.At later (full.filterMap Prod.snd)
        (full'.filterMap Prod.snd) := List.rel_filterMap (fun _ _ place => place.2) alike
    cases complete with
    | true => exact still (.some readings)
    | false =>
        exact seq (forM readings fun _ _ _ _ alike => discardReading impartial alike)
          fun _ _ _ _ _ => still .none
  refine seq (produceSome impartial false start cases) fun middle grown partly partly' alike => ?_
  obtain ⟨reading, partly⟩ := partly
  obtain ⟨_, partly'⟩ := partly'
  obtain ⟨rfl, alike⟩ := alike
  cases reading with
  | false =>
      have none : Follows peers middle (Likeness.same.both places)
          (pure (false, partly) : Quiet V σ _) (pure (false, partly')) := still ⟨rfl, alike⟩
      exact seq none fun later _ full full' => finished later full full'
  | true =>
      refine seq (produceSome impartial true alike (Likeness.case.mono grown cases))
        fun later _ full full' => ?_
      exact finished later full full'

end Arguments

section Handlers

variable (impartial : peers.Impartial (V := V)) {case case' : Case V}
include impartial

theorem testAll {id id' : FailureId} (linked : names.Links id id')
    {conditions conditions' : List (Condition V σ)}
    (alike : (Likeness.condition peers).listed.At names conditions conditions') :
    Act.Follows peers names .same (Condition.testAll id conditions)
      (Condition.testAll id' conditions') := by
  induction conditions generalizing conditions' names with
  | nil =>
      cases alike
      exact returns rfl
  | cons condition rest ih =>
      cases alike with
      | @cons _ condition' _ rest' first others =>
          have tested : Act.Follows peers names .same (condition.test id)
              (condition'.test id') := by
            cases first with
            | holds key follows =>
                refine andThen (lend impartial linked follows) fun _ _ _ _ alike => ?_
                cases alike with
                | none => exact returns rfl
                | some same => exact returns same
            | thrown type => exact quietly (thrownIs type linked)
          refine agreedThen tested fun _ grown met => ?_
          cases met with
          | false => exact returns rfl
          | true => exact ih (grown _ linked) (Likeness.mono _ grown others)

variable {handler handler' : Handler V σ β}
  (alike : Handler.Like peers other names handler handler')
include alike

theorem accepts (cases : Likeness.case.At names case case') :
    Act.Follows peers names .same (handler.accepts case) (handler'.accepts case') := by
  obtain ⟨arguments, alike, _⟩ := alike
  refine agreedThen (quietly (allAvailable impartial arguments cases)) fun _ grown met => ?_
  cases met with
  | false => exact returns rfl
  | true => exact testAll impartial (grown _ cases.1) (Likeness.mono _ grown alike)

theorem answer? (cases : Likeness.case.At names case case') :
    Act.Follows peers names other.optional (handler.answer? case) (handler'.answer? case') := by
  obtain ⟨arguments, _, follows⟩ := alike
  refine andThen (quietly (produceAll impartial arguments cases)) fun later grown _ _ readings => ?_
  cases readings with
  | none => exact returns .none
  | some readings =>
      exact mapped (follows later grown _ _ readings) fun _ _ _ _ alike => .some alike

omit alike

theorem dispatchFrom (cases : Likeness.case.At names case case') (index : Nat)
    {handlers handlers' : List (Handler V σ β)}
    (alike : (Likeness.handler peers other).listed.At names handlers handlers') :
    Act.Follows peers names other.outcome (dispatchFrom case index handlers)
      (FaultRelay.dispatchFrom case' index handlers') := by
  induction handlers generalizing handlers' names index with
  | nil =>
      cases alike
      exact agreedThen (quietly (emit _ _)) fun _ grown _ => returns (.unmatched (grown _ cases.1))
  | cons handler rest ih =>
      cases alike with
      | @cons _ handler' _ rest' first others =>
          have signatures : handler.signature = handler'.signature := by
            cases first
            rfl
          refine agreedThen (accepts impartial first cases) fun middle grown accepted => ?_
          have first := (Likeness.handler peers other).mono grown first
          have cases := Likeness.case.mono grown cases
          cases accepted with
          | false => exact ih cases (index + 1) (Likeness.mono _ grown others)
          | true =>
              refine agreedThen (quietly (emit _ _)) fun later further _ => ?_
              have first := (Likeness.handler peers other).mono further first
              have cases := Likeness.case.mono further cases
              refine andThen (answer? impartial first cases) fun last on _ _ answers => ?_
              cases answers with
              | none =>
                  rw [signatures]
                  exact unwind (.message (.broken index _ (on _ cases.1)))
              | some alike => exact returns (.handled alike)

theorem dispatch {chain chain' : Chain V σ β} {id id' : FailureId} (linked : names.Links id id')
    (alike : (Likeness.chain peers other).At names chain chain') :
    Act.Follows peers names other.outcome (chain.dispatch id) (chain'.dispatch id') :=
  dispatchFrom impartial ⟨linked, alike.2⟩ 0 alike.1

theorem dispatchTotal {total total' : TotalChain V σ β} {id id' : FailureId}
    (linked : names.Links id id')
    (alike : (Likeness.chain peers other).At names total.chain total'.chain) :
    Act.Follows peers names other (total.dispatch id) (total'.dispatch id') := by
  refine andThen (dispatch impartial linked alike) fun _ _ _ _ outcomes => ?_
  cases outcomes with
  | handled alike => exact returns alike
  | unmatched linked => exact unwind (.message (.uncaught linked))

theorem make (arguments : List (Argument V)) {conditions conditions' : List (Condition V σ)}
    {respond respond' : List (Reading V) → Act V σ β}
    (alike : (Likeness.condition peers).listed.At names conditions conditions')
    (follows : (Likeness.code peers Likeness.reading.listed other).At names respond respond') :
    Act.Follows peers names (Likeness.handler peers other)
      (Handler.make arguments conditions respond)
      (Handler.make arguments conditions' respond') := by
  refine agreedThen (quietly (announce impartial .empty arguments)) fun _ grown _ => ?_
  cases Arguments.conflict? arguments with
  | some key => exact unwind (.message (.same _))
  | none =>
      exact returns (.mk arguments (Likeness.mono _ grown alike) (Likeness.mono _ grown follows))

end Handlers

section Blocks

variable (impartial : peers.Impartial (V := V))
include impartial

theorem handleAll {body body' : Act V σ (Except FailureId β)}
    (follows : Act.Follows peers names (Likeness.id.either other) body body')
    {total total' : TotalChain V σ β}
    (alike : (Likeness.chain peers other).At names total.chain total'.chain) :
    Act.Follows peers names other (handleAll body total) (FaultRelay.handleAll body' total') := by
  unfold FaultRelay.handleAll
  rw [Scope.forHandlers_alike alike.1]
  refine during impartial _ fun middle grown _ _ _ => ?_
  refine andThen (follows.mono grown) fun later further ended ended' ends => ?_
  cases ends with
  | returned value => exact returns value
  | failed linked =>
      exact dispatchTotal impartial linked (Likeness.mono _ (grown.trans further) alike)

theorem handleSome {body body' : Act V σ (Except FailureId β)}
    (follows : Act.Follows peers names (Likeness.id.either other) body body')
    {chain chain' : Chain V σ (Except FailureId β)}
    (alike : (Likeness.chain peers (Likeness.id.either other)).At names chain chain') :
    Act.Follows peers names (Likeness.id.either other) (handleSome body chain)
      (FaultRelay.handleSome body' chain') := by
  unfold FaultRelay.handleSome
  rw [Scope.forHandlers_alike alike.1]
  refine during impartial _ fun middle grown _ _ _ => ?_
  refine andThen (follows.mono grown) fun later further ended ended' ends => ?_
  cases ends with
  | returned value => exact returns (.returned value)
  | failed linked =>
      have chains := Likeness.mono _ (grown.trans further) alike
      refine andThen (dispatch impartial linked chains) fun _ _ _ _ outcomes => ?_
      cases outcomes with
      | handled result => exact returns result
      | unmatched linked => exact returns (.failed linked)

theorem dispatchCaught {object object' : Thrown V} (objects : Thrown.Like names object object')
    {total total' : TotalChain V σ β}
    (alike : (Likeness.chain peers other).At names total.chain total'.chain) :
    Act.Follows peers names other
      (do total.dispatch (← FaultRelay.quietly object.keep))
      (do total'.dispatch (← FaultRelay.quietly object'.keep)) :=
  andThen (quietly (keep impartial objects)) fun _ grown _ _ linked =>
    dispatchTotal impartial linked (Likeness.mono _ grown alike)

theorem catching {source : Likeness α} {settle settle' : α → Act V σ β} {body body' : Act V σ α}
    (follows : Act.Follows peers names source body body') {total total' : TotalChain V σ β}
    (alike : (Likeness.chain peers other).At names total.chain total'.chain)
    (settles : ∀ later value value', names ≤ later → source.At later value value' →
      Act.Follows peers later other (settle value) (settle' value')) :
    Act.Follows peers names other (catching settle body total)
      (FaultRelay.catching settle' body' total') := by
  unfold FaultRelay.catching Scope.catching
  rw [alike.2]
  refine during impartial _ fun middle grown _ _ _ => ?_
  refine andThen (attempt (follows.mono grown)) fun later further ended ended' ends => ?_
  cases ends with
  | returned value => exact settles later _ _ (grown.trans further) value
  | failed objects =>
      exact dispatchCaught impartial objects (Likeness.mono _ (grown.trans further) alike)

theorem catchUnwinding {body body' : Act V σ β} (follows : Act.Follows peers names other body body')
    {total total' : TotalChain V σ β}
    (alike : (Likeness.chain peers other).At names total.chain total'.chain) :
    Act.Follows peers names other (catchUnwinding body total)
      (FaultRelay.catchUnwinding body' total') :=
  catching impartial follows alike fun _ _ _ _ value => returns value

theorem catchBoth {body body' : Act V σ (Except FailureId β)}
    (follows : Act.Follows peers names (Likeness.id.either other) body body')
    {total total' : TotalChain V σ β}
    (alike : (Likeness.chain peers other).At names total.chain total'.chain) :
    Act.Follows peers names other (catchBoth body total) (FaultRelay.catchBoth body' total') := by
  rw [catchBoth_eq, catchBoth_eq]
  refine catching impartial follows alike fun later _ _ grown ends => ?_
  cases ends with
  | returned value => exact returns value
  | failed linked => exact dispatchTotal impartial linked (Likeness.mono _ grown alike)

theorem pack (keys : List (Key V)) {body body' : Act V σ (Except FailureId β)}
    (follows : Act.Follows peers names (Likeness.id.either other) body body') :
    Act.Follows peers names (Likeness.parcel.either other) (Parcel.pack keys body)
      (Parcel.pack keys body') := by
  refine during impartial _ fun middle grown _ _ _ => ?_
  refine andThen (follows.mono grown) fun later further ended ended' ends => ?_
  cases ends with
  | returned value => exact returns (.returned value)
  | failed linked =>
      exact andThen (quietly (collect linked keys)) fun _ last _ _ payloads =>
        returns (.failed (.mk (last _ linked) payloads))

end Blocks

end Follows

end FaultRelay

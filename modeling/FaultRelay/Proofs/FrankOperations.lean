import FaultRelay.Proofs.Frankness
import FaultRelay.Proofs.Operation

/-! Every operation of the library is frank, if its host is and what a program puts into it. There is
one lemma for each definition of the library; whatever ends, is recorded or handed to a handler is
followed to the consultations it leads to. -/
namespace FaultRelay

variable {V : Vocabulary} {σ α β : Type} {past : List Consultation}

structure FrankHost (V : Vocabulary) (σ : Type) [Host V σ] : Prop where
  destroy : ∀ kind value,
    Act.Frank [] (quietly (Host.destroy kind value) : Act V σ Unit) Whatever
  declared : ∀ argument count,
    Act.Frank [] (quietly (Host.declared argument count) : Act V σ Unit) Whatever
  available : ∀ argument case,
    Act.Frank [] (quietly (Host.available argument case) : Act V σ Bool) Whatever
  produced : ∀ argument,
    Act.Frank [] (quietly (Host.produced argument) : Act V σ (Option V.Product)) Whatever

/-- If a handler is given a tally, some stray in `past` was counted. -/
def Reading.Justified (past : List Consultation) : Reading V → Prop
  | take key value | copy key value => Payload.Justified past ⟨key, value⟩
  | optional (some inner) => inner.Justified past
  | report found => ∀ tally, found.dropped = some tally → ¬ Uncounted past
  | optional none | thrown _ | message _ | summary _ _ | custom _ => True

theorem Reading.Justified.lasts {reading : Reading V} {past later : List Consultation}
    (justified : reading.Justified past) (goes : past <+: later) : reading.Justified later := by
  match reading with
  | .take key value | .copy key value => exact Payload.Justified.lasts justified goes
  | .optional (some inner) =>
      have own : inner.Justified past := justified
      exact own.lasts goes
  | .report found =>
      exact fun tally dropped uncounted => justified tally dropped (uncounted.earlier goes)
  | .optional none | .thrown _ | .message _ | .summary _ _ | .custom _ => trivial

def Arguments.Justified (past : List Consultation) (places : List (Arguments.Place V)) : Prop :=
  ∀ place ∈ places, ∀ reading, place.2 = some reading → reading.Justified past

namespace Act.Frank

section Values

variable [Host V σ] (host : FrankHost V σ)
include host

theorem release (key : Key V) (value : key.Value) :
    Frank past (quietly (release key value) : Act V σ Unit) Whatever := by
  cases key with
  | app kind => exact (host.destroy kind value).lasts List.nil_prefix
  | tally | thrown => exact done ()

theorem releaseAll (payloads : List (Payload V)) :
    Frank past (quietly (releaseAll payloads) : Act V σ Unit) Whatever := by
  induction payloads generalizing past with
  | nil => exact done ()
  | cons payload rest ih => exact seq (release host payload.key payload.value) fun _ _ _ _ => ih

omit host in
theorem recordEnding {key : Key V} {value : key.Value} {ending : key.Value → Quiet V σ Unit}
    (ends : ∀ later value, past <+: later → Frank later (quietly (ending value)) Whatever)
    (own : Payload.Justified past ⟨key, value⟩) (id : FailureId) :
    Frank past (quietly (recordEnding key ending value id) : Act V σ Bool) Whatever := by
  refine seq (put own id.raw) fun later answer goes _ => ?_
  cases answer with
  | stored previous =>
      cases previous with
      | none => exact done true
      | some previous => exact seq (ends later previous goes) fun _ _ _ _ => done true
  | rejected refused =>
      exact seq (ends later refused goes) fun _ _ _ _ =>
        seq (noteStray key id) fun _ _ _ _ => done false

theorem record {key : Key V} {value : key.Value} (own : Payload.Justified past ⟨key, value⟩)
    (id : FailureId) : Frank past (quietly (record key value id) : Act V σ Bool) Whatever :=
  recordEnding (fun _ value _ => release host key value) own id

theorem recordAll {payloads : List (Payload V)}
    (own : ∀ payload ∈ payloads, payload.Justified past) (id : FailureId) :
    Frank past (quietly (recordAll payloads id) : Act V σ Unit) Whatever := by
  induction payloads generalizing past with
  | nil => exact done ()
  | cons payload rest ih =>
      obtain ⟨first, others⟩ := List.forall_mem_cons.1 own
      refine seq (discard (record host first id)) fun _ _ goes _ => ?_
      exact ih fun payload listed => (others payload listed).lasts goes

theorem newFailure {payloads : List (Payload V)}
    (own : ∀ payload ∈ payloads, payload.Justified past) :
    Frank past (quietly (newFailure payloads) : Act V σ FailureId) Whatever := by
  refine seq mint fun _ id goes _ => ?_
  refine seq (recordAll host (fun payload listed => (own payload listed).lasts goes) id)
    fun _ _ _ _ => done id

omit host in
theorem identify (object : Thrown V) :
    Frank past (quietly object.identify : Act V σ FailureId) Whatever := by
  unfold Thrown.identify
  split
  · exact done _
  · exact mint

theorem recordThrown (object : Thrown V) (id : FailureId) :
    Frank past (quietly (FaultRelay.record .thrown object id) : Act V σ Bool) Whatever := by
  have own : Payload.Justified past (⟨.thrown, object⟩ : Payload V) := nofun
  exact record host own id

theorem keep (object : Thrown V) :
    Frank past (quietly object.keep : Act V σ FailureId) Whatever :=
  seq (identify object) fun _ id _ _ => seq (emit _) fun _ _ _ _ =>
    seq (discard (recordThrown host object id)) fun _ _ _ _ => done id

theorem unpack {parcel : Parcel V} (own : ∀ payload ∈ parcel.payloads, payload.Justified past) :
    Frank past (quietly parcel.unpack : Act V σ FailureId) Whatever :=
  seq (emit _) fun _ _ goes _ =>
    seq (recordAll host (fun payload listed => (own payload listed).lasts goes) parcel.id)
      fun _ _ _ _ => done parcel.id

/-- A value that is given back was justified when it was taken, and is so since. -/
theorem restore {key : Key V} {value : key.Value} (own : Payload.Justified past ⟨key, value⟩)
    (owner : Token) (id : Nat) :
    Frank past (quietly (Slot.restore key owner id value) : Act V σ Unit) Whatever := by
  refine seq (reading (fun thread => thread.stack key) fun _ => rfl) fun _ now goes _ => ?_
  split
  · refine threaded (fun thread => ((), thread.setStack key (now.onFrame owner (·.put id value))))
      (fun _ => rfl) fun _ _ further justified => ⟨justified.setStack ?_, trivial⟩
    exact fun tally uncounted =>
      absurd uncounted ((own.lasts (goes.trans further)) tally)
  · exact release host key value

theorem lend {key : Key V} {id : Nat} {use : key.Value → Act V σ α}
    (uses : ∀ later value, past <+: later → Payload.Justified later ⟨key, value⟩ →
      Frank later (use value) Whatever) :
    Frank past (Slot.lend key id use) Whatever := by
  refine bind (reading (fun thread => thread.stack key) fun _ => rfl) fun _ now goes _ => ?_
  split
  · exact done none
  · refine bind (takeFor key id) fun _ taken further own => ?_
    cases taken with
    | none => exact done none
    | some value =>
        have justified := own value rfl
        exact map (ensuring (uses _ value (goes.trans further) justified)
          (restore host justified _ id))

theorem endStorage : Frank past (quietly Slot.endStorage : Act V σ Unit) Whatever := by
  have gone {later : List Consultation} : Frank later
      (quietly (Quiet.modifyThread fun thread => { thread with store := none }) : Act V σ Unit)
      Whatever :=
    threaded (fun thread => ((), { thread with store := none })) (fun _ => rfl)
      fun _ _ _ _ => ⟨fun _ => nofun, trivial⟩
  refine seq (reading Thread.store fun _ => rfl) fun _ store _ _ => seq gone fun _ _ _ _ => ?_
  cases store with
  | none => exact done ()
  | some store =>
      exact forM (fun entry _ _ => forM (fun value _ _ => release host entry.1 value) _) _

theorem spawn {act : Act V σ α} (runs : Frank past act Whatever) :
    Frank past (spawn act) Whatever := by
  have inner : Frank past (do
      let ended ← act.attempt
      quietly Slot.endStorage
      return ended) Whatever :=
    bind runs.attempt fun _ _ _ _ => bind (endStorage host) fun _ _ _ _ => done _
  intro later world goes _
  obtain ⟨events, consults, _⟩ := inner later { world with thread := .fresh V } goes fun _ => nofun
  exact ⟨events, .thread nofun consults, fun _ _ => trivial⟩

end Values

section Scopes

variable [Host V σ] (host : FrankHost V σ)

omit host in
theorem enter (scope : Scope V) :
    Frank past (quietly scope.enter : Act V σ (OpenScope V)) Whatever := by
  have token : Frank past (quietly Token.next : Act V σ Token) Whatever :=
    threaded (fun thread => (.numbered (thread.lastToken + 1),
      { thread with lastToken := thread.lastToken + 1 })) (fun _ => rfl)
      fun _ _ _ justified => ⟨justified, trivial⟩
  have opens (later : List Consultation) (owner : Token) (key : Key V) :
      Frank later (quietly (Scope.openSlot owner key) : Act V σ Unit) Whatever :=
    seq (openFor key owner) fun _ _ _ _ => emit _
  refine seq token fun _ owner _ _ => ?_
  refine seq (forM (fun key later _ => opens later owner key) scope.interest.keys) fun _ _ _ _ => ?_
  have told (later : List Consultation) (tallies : Bool) : Frank later (quietly (do
      FaultRelay.emit (.activated owner.value scope.interest.size)
      return ⟨scope.interest, owner, tallies⟩) : Act V σ (OpenScope V)) Whatever :=
    seq (emit _) fun _ _ _ _ => done _
  cases scope.interest.tallies with
  | true => exact seq (modifyThread fun _ => rfl) fun later _ _ _ => told later true
  | false => exact told _ false

include host

theorem closeSlot (owner : Token) (key : Key V) :
    Frank past (quietly (Scope.closeSlot owner key) : Act V σ Unit) Whatever := by
  refine seq (close key owner) fun _ answer _ _ => ?_
  cases answer with
  | retained | released | notOpen => exact done ()
  | propagated id replaced =>
      refine seq (emit _) fun _ _ _ _ => ?_
      cases replaced with
      | none => exact done ()
      | some value => exact release host key value
  | discarded id value => exact seq (emit _) fun _ _ _ _ => release host key value

theorem leave (active : OpenScope V) :
    Frank past (quietly active.leave : Act V σ Unit) Whatever := by
  refine seq (forM (fun key _ _ => closeSlot host active.token key) _) fun _ _ _ _ => ?_
  cases active.tallies with
  | true => exact seq (modifyThread fun _ => rfl) fun _ _ _ _ => emit _
  | false => exact emit _

theorem during (scope : Scope V) {body : OpenScope V → Act V σ α}
    (runs : ∀ active, Frank past (body active) Whatever) :
    Frank past (scope.during body) Whatever :=
  bind (enter scope) fun _ active goes _ =>
    ensuring ((runs active).lasts goes) (leave host active)

theorem pack (keys : List (Key V)) {body : Act V σ (Except FailureId α)}
    (runs : Frank past body Whatever) : Frank past (Parcel.pack keys body) Whatever := by
  refine during host _ fun _ => bind runs fun _ ended _ _ => ?_
  cases ended with
  | ok value => exact done _
  | error id => exact bind (collect id keys) fun _ _ _ _ => done _

end Scopes

end Act.Frank

def Context.Frank [Host V σ] (past : List Consultation) : Context V (Deferred V σ) → Prop
  | .prepared payloads => ∀ payload ∈ payloads, payload.Justified past
  | .deferred key code =>
      Act.Frank past code fun later value => Payload.Justified later ⟨key, value⟩

theorem Context.Frank.lasts [Host V σ] {past later : List Consultation}
    {context : Context V (Deferred V σ)} (frank : context.Frank past) (goes : past <+: later) :
    context.Frank later := by
  cases context with
  | prepared payloads => exact fun payload listed => (frank payload listed).lasts goes
  | deferred key code => exact fun _ world further => frank _ world (goes.trans further)

namespace Act.Frank

section Guards

variable [Host V σ] (host : FrankHost V σ)

omit host in
theorem arm {κ : Key V → Type} (context : Context V κ) :
    Frank past (quietly (Guard.arm context) : Act V σ (Guard V κ)) Whatever :=
  seq current fun _ _ _ _ => seq unwinding fun _ _ _ _ => done _

omit host in
theorem target {κ : Key V → Type} (guard : Guard V κ) :
    Frank past (quietly guard.target : Act V σ (Option FailureId)) Whatever := by
  refine seq current fun _ id _ _ => ?_
  split
  · exact done id
  · refine seq unwinding fun _ unwinds _ _ => ?_
    split
    · exact seq reserve fun _ id _ _ => done (some id)
    · exact done none

include host

theorem dismiss {κ : Key V → Type} (guard : Guard V κ) :
    Frank past (quietly guard.dismiss : Act V σ Unit) Whatever := by
  obtain ⟨context, baseline, wasUnwinding⟩ := guard
  cases context with
  | prepared payloads => exact releaseAll host payloads
  | deferred key code => exact done ()

theorem fire {context : Context V (Deferred V σ)} (frank : context.Frank past) (id : FailureId) :
    Frank past (Guard.fire (fun _ code => code) context id) Whatever := by
  cases context with
  | prepared payloads => exact recordAll host frank id
  | deferred key code =>
      have runs : Frank past code fun later value => Payload.Justified later ⟨key, value⟩ := frank
      refine bind (isOpen key) fun _ opened goes _ => ?_
      cases opened with
      | true =>
          exact bind (runs.lasts goes) fun _ value _ own =>
            bind (record host own id) fun _ _ _ _ => done ()
      | false => exact noteStray key id

theorem drop {guard : Guard V (Deferred V σ)} (frank : guard.context.Frank past) :
    Frank past (guard.drop fun _ code => code) Whatever := by
  refine bind (target guard) fun later found goes _ => ?_
  cases found with
  | none => exact dismiss host guard
  | some id => exact fire host (frank.lasts goes) id

end Guards

section Arguments

variable [Host V σ] (host : FrankHost V σ)

omit host in
theorem presentNames (id : FailureId) (keys : List (Key V)) :
    Frank past (quietly (Argument.presentNames id keys) : Act V σ (List String)) Whatever := by
  induction keys generalizing past with
  | nil => exact done []
  | cons key rest ih =>
      exact seq (holds key id.raw) fun _ _ _ _ => seq ih fun _ _ _ _ => done _

omit host in
theorem thrownIs (type : ThrownType V) (id : FailureId) :
    Frank past (quietly (Argument.thrownIs type id) : Act V σ Bool) Whatever :=
  seq (valueFor .thrown id.raw) fun _ _ _ _ => done _

omit host in
theorem messageOf (id : FailureId) :
    Frank past (quietly (Argument.message? (V := V) id) : Act V σ (Option String)) Whatever :=
  seq (valueFor .thrown id.raw) fun _ _ _ _ => done _

omit host in
theorem makeReport (case : Case V) :
    Frank past (quietly (Argument.makeReport case) : Act V σ Report) fun later report =>
      ∀ tally, report.dropped = some tally → ¬ Uncounted later :=
  seq (presentNames case.id _) fun _ _ _ _ => seq (holds .thrown case.id.raw) fun _ _ _ _ =>
    seq (valueFor .tally case.id.raw) fun _ _ _ own =>
      pure fun _ further tally found uncounted =>
        own tally found rfl (uncounted.earlier further)

include host

theorem takeThrown (type : ThrownType V) (id : FailureId) :
    Frank past (quietly (Argument.takeThrown type id) : Act V σ (Option (Thrown V))) Whatever := by
  refine seq (takeFor .thrown id.raw) fun _ found _ _ => ?_
  cases found with
  | none => exact done none
  | some object =>
      by_cases typed : object.hasType type = true
      · simp only [typed, if_true]
        exact done (some object)
      · simp only [typed]
        exact seq (discard (recordThrown host object id)) fun _ _ _ _ => done none

theorem available (argument : Argument V) (case : Case V) :
    Frank past (quietly (argument.available case) : Act V σ Bool) Whatever := by
  cases argument with
  | take key | copy key => exact holds key case.id.raw
  | optional | summary | report => exact done true
  | thrown type => exact thrownIs type case.id
  | message => exact seq (messageOf case.id) fun _ _ _ _ => done _
  | custom argument => exact (host.available argument case).lasts List.nil_prefix

theorem produce (argument : Argument V) (case : Case V) :
    Frank past (quietly (argument.produce case) : Act V σ (Option (Reading V)))
      fun later answer => ∀ reading, answer = some reading → reading.Justified later := by
  induction argument generalizing past with
  | take key =>
      refine seq (takeFor key case.id.raw) fun _ found _ own => pure fun _ further reading => ?_
      cases found with
      | none => exact nofun
      | some value => rintro ⟨⟩; exact (own value rfl).lasts further
  | copy key =>
      refine seq (valueFor key case.id.raw) fun _ found _ own => pure fun _ further reading => ?_
      cases found with
      | none => exact nofun
      | some value => rintro ⟨⟩; exact (own value rfl).lasts further
  | optional inner ih =>
      refine seq (available host inner case) fun _ found _ _ => ?_
      cases found with
      | true =>
          refine seq ih fun _ answer _ own => pure fun _ further reading => ?_
          rintro ⟨⟩
          cases answer with
          | none => trivial
          | some inner => exact (own inner rfl).lasts further
      | false => exact pure fun _ _ reading => by rintro ⟨⟩; trivial
  | thrown type =>
      refine seq (takeThrown host type case.id) fun _ found _ _ => pure fun _ _ reading => ?_
      cases found with
      | none => exact nofun
      | some object => rintro ⟨⟩; trivial
  | message =>
      refine seq (messageOf case.id) fun _ found _ _ => pure fun _ _ reading => ?_
      cases found with
      | none => exact nofun
      | some text => rintro ⟨⟩; trivial
  | summary =>
      exact seq (holds .thrown case.id.raw) fun _ _ _ _ => pure fun _ _ reading => by
        rintro ⟨⟩; trivial
  | report =>
      refine seq (makeReport case) fun _ report _ own => pure fun _ further reading => ?_
      rintro ⟨⟩ tally found uncounted
      exact own tally found (uncounted.earlier further)
  | custom argument =>
      refine seq ((host.produced argument).lasts List.nil_prefix) fun _ found _ _ =>
        pure fun _ _ reading => ?_
      cases found with
      | none => exact nofun
      | some product => rintro ⟨⟩; trivial

theorem produceSome (case : Case V) (taking : Bool) {places : List (Arguments.Place V)}
    (own : Arguments.Justified past places) :
    Frank past (quietly (Arguments.produceSome case taking places) :
      Act V σ (Bool × List (Arguments.Place V))) fun later answer =>
        Arguments.Justified later answer.2 := by
  induction places generalizing past with
  | nil => exact pure fun _ _ _ listed => by cases listed
  | cons place rest ih =>
      obtain ⟨argument, filled⟩ := place
      obtain ⟨first, others⟩ := List.forall_mem_cons.1 own
      have left {later : List Consultation} (goes : past <+: later) :
          Arguments.Justified later rest :=
        fun place listed reading found => (others place listed reading found).lasts goes
      unfold Arguments.produceSome
      split
      · refine seq (produce host argument case) fun _ answer goes given => ?_
        cases answer with
        | none =>
            refine pure fun _ further => List.forall_mem_cons.2 ⟨fun _ found => ?_, ?_⟩
            · cases found
            · exact left (goes.trans further)
        | some reading =>
            refine seq (ih (left goes)) fun _ placed further done => ?_
            refine pure fun _ last => List.forall_mem_cons.2 ⟨?_, fun place listed reading found =>
              (done place listed reading found).lasts last⟩
            rintro _ ⟨⟩
            exact (given reading rfl).lasts (further.trans last)
      · refine seq (ih others) fun _ placed goes done => ?_
        refine pure fun _ further => List.forall_mem_cons.2 ⟨fun reading found =>
          (first reading found).lasts (goes.trans further), fun place listed reading found =>
            (done place listed reading found).lasts further⟩

theorem discardReading (reading : Reading V) :
    Frank past (quietly reading.discard : Act V σ Unit) Whatever := by
  match reading with
  | .take key value => exact release host key value
  | .optional (some inner) => exact discardReading inner
  | .optional none | .copy .. | .thrown _ | .message _ | .summary .. | .report _ | .custom _ =>
      exact done ()

theorem produceAll (arguments : List (Argument V)) (case : Case V) :
    Frank past (quietly (Arguments.produce case arguments) : Act V σ (Option (List (Reading V))))
      fun later answer => ∀ readings, answer = some readings →
        ∀ reading ∈ readings, reading.Justified later := by
  have bare : Arguments.Justified past
      (arguments.map fun argument => ((argument, none) : Arguments.Place V)) := by
    intro place listed reading found
    obtain ⟨_, _, rfl⟩ := List.mem_map.1 listed
    cases found
  have finish {later : List Consultation} (complete : Bool) {places : List (Arguments.Place V)}
      (own : Arguments.Justified later places) :
      Frank later (quietly (if complete then Pure.pure (some (places.filterMap Prod.snd)) else do
        (places.filterMap Prod.snd).forM Reading.discard
        Pure.pure none) : Act V σ (Option (List (Reading V)))) fun later answer =>
          ∀ readings, answer = some readings → ∀ reading ∈ readings, reading.Justified later := by
    split
    · refine pure fun _ goes readings found reading listed => ?_
      cases found
      obtain ⟨place, placed, filled⟩ := List.mem_filterMap.1 listed
      exact (own place placed reading filled).lasts goes
    · exact seq (forM (fun reading _ _ => discardReading host reading) _) fun _ _ _ _ =>
        pure fun _ _ => nofun
  refine seq (produceSome host case false bare) fun _ ⟨reading, partly⟩ _ own => ?_
  cases reading with
  | false => exact finish false own
  | true => exact seq (produceSome host case true own) fun _ ⟨complete, places⟩ _ own =>
      finish complete own

theorem availableAll (arguments : List (Argument V)) (case : Case V) :
    Frank past (quietly (Arguments.available case arguments) : Act V σ Bool) Whatever := by
  induction arguments generalizing past with
  | nil => exact done true
  | cons argument rest ih =>
      refine seq (available host argument case) fun _ found _ _ => ?_
      cases found with
      | true => exact ih
      | false => exact done false

theorem announce (before : Interest V) (arguments : List (Argument V)) :
    Frank past (quietly (Arguments.announce before arguments) : Act V σ Unit) Whatever := by
  have single {later : List Consultation} (count : Nat) (argument : Argument V) :
      Frank later (quietly (argument.announce count) : Act V σ Unit) Whatever := by
    induction argument with
    | custom argument => exact (host.declared argument count).lasts List.nil_prefix
    | optional inner ih => exact ih
    | take | copy | thrown | message | summary | report => exact done ()
  induction arguments generalizing past before with
  | nil => exact done ()
  | cons argument rest ih => exact seq (single _ argument) fun _ _ _ _ => ih _

end Arguments

end Act.Frank

def Condition.Frank [Host V σ] (past : List Consultation) : Condition V σ → Prop
  | .holds key test => ∀ later value, past <+: later → Payload.Justified later ⟨key, value⟩ →
      Act.Frank later (test value) Whatever
  | .thrown _ => True

theorem Condition.Frank.lasts [Host V σ] {past later : List Consultation}
    {condition : Condition V σ} (frank : condition.Frank past) (goes : past <+: later) :
    condition.Frank later := by
  cases condition with
  | holds key test => exact fun _ value further => frank _ value (goes.trans further)
  | thrown type => trivial

structure Handler.Frank [Host V σ] (past : List Consultation) (handler : Handler V σ α) :
    Prop where
  conditions : ∀ condition ∈ handler.conditions, condition.Frank past
  respond : ∀ later readings, past <+: later → (∀ reading ∈ readings, reading.Justified later) →
    Act.Frank later (handler.respond readings) Whatever

theorem Handler.Frank.lasts [Host V σ] {past later : List Consultation} {handler : Handler V σ α}
    (frank : handler.Frank past) (goes : past <+: later) : handler.Frank later where
  conditions condition listed := (frank.conditions condition listed).lasts goes
  respond _ readings further := frank.respond _ readings (goes.trans further)

namespace Act.Frank

section Handlers

variable [Host V σ] (host : FrankHost V σ)
include host

theorem test {condition : Condition V σ} (frank : condition.Frank past) (id : FailureId) :
    Frank past (condition.test id) Whatever := by
  cases condition with
  | thrown type => exact thrownIs type id
  | holds key test => exact bind (lend host frank) fun _ _ _ _ => done _

theorem testAll {conditions : List (Condition V σ)}
    (frank : ∀ condition ∈ conditions, condition.Frank past) (id : FailureId) :
    Frank past (Condition.testAll id conditions) Whatever := by
  induction conditions generalizing past with
  | nil => exact done true
  | cons condition rest ih =>
      obtain ⟨first, others⟩ := List.forall_mem_cons.1 frank
      refine bind (test host first id) fun _ found goes _ => ?_
      cases found with
      | true => exact ih fun condition listed => (others condition listed).lasts goes
      | false => exact done false

theorem accepts {handler : Handler V σ α} (frank : handler.Frank past) (case : Case V) :
    Frank past (handler.accepts case) Whatever := by
  refine bind (availableAll host handler.arguments case) fun _ found goes _ => ?_
  cases found with
  | true => exact testAll host (frank.lasts goes).conditions case.id
  | false => exact done false

theorem answer? {handler : Handler V σ α} (frank : handler.Frank past) (case : Case V) :
    Frank past (handler.answer? case) Whatever := by
  refine bind (produceAll host handler.arguments case) fun _ found goes own => ?_
  cases found with
  | none => exact done none
  | some readings => exact map (frank.respond _ readings goes (own readings rfl))

theorem dispatchFrom {case : Case V} {handlers : List (Handler V σ α)}
    (frank : ∀ handler ∈ handlers, handler.Frank past) (index : Nat) :
    Frank past (dispatchFrom case index handlers) Whatever := by
  induction handlers generalizing past index with
  | nil => exact bind (emit _) fun _ _ _ _ => done _
  | cons handler rest ih =>
      obtain ⟨first, others⟩ := List.forall_mem_cons.1 frank
      refine bind (accepts host first case) fun _ accepted goes _ => ?_
      cases accepted with
      | false => exact ih (fun handler listed => (others handler listed).lasts goes) (index + 1)
      | true =>
          refine bind (emit _) fun _ _ further _ => ?_
          refine bind (answer? host (first.lasts (goes.trans further)) case) fun _ answer _ _ => ?_
          cases answer with
          | some value => exact done _
          | none => exact unwind _

theorem dispatch {chain : Chain V σ α} (frank : ∀ handler ∈ chain.handlers, handler.Frank past)
    (id : FailureId) : Frank past (chain.dispatch id) Whatever :=
  dispatchFrom host frank 0

theorem dispatchTotal {total : TotalChain V σ α}
    (frank : ∀ handler ∈ total.chain.handlers, handler.Frank past) (id : FailureId) :
    Frank past (total.dispatch id) Whatever := by
  refine bind (dispatch host frank id) fun _ outcome _ _ => ?_
  cases outcome with
  | handled value => exact done value
  | unmatched id => exact unwind _

theorem make (arguments : List (Argument V)) (conditions : List (Condition V σ))
    (respond : List (Reading V) → Act V σ α) :
    Frank past (Handler.make arguments conditions respond) Whatever := by
  refine bind (announce host .empty arguments) fun _ _ _ _ => ?_
  split
  · exact unwind _
  · exact done _

end Handlers

section Blocks

variable [Host V σ] (host : FrankHost V σ)
include host

theorem handleAll {body : Act V σ (Except FailureId α)} {total : TotalChain V σ α}
    (runs : Frank past body Whatever)
    (frank : ∀ handler ∈ total.chain.handlers, handler.Frank past) :
    Frank past (handleAll body total) Whatever := by
  refine during host _ fun _ => bind runs fun _ ended goes _ => ?_
  cases ended with
  | ok value => exact done value
  | error id => exact (dispatchTotal host frank id).lasts goes

theorem handleSome {body : Act V σ (Except FailureId α)} {chain : Chain V σ (Except FailureId α)}
    (runs : Frank past body Whatever) (frank : ∀ handler ∈ chain.handlers, handler.Frank past) :
    Frank past (handleSome body chain) Whatever := by
  refine during host _ fun _ => bind runs fun _ ended goes _ => ?_
  cases ended with
  | ok value => exact done _
  | error id =>
      refine bind ((dispatch host frank id).lasts goes) fun _ outcome _ _ => ?_
      cases outcome with
      | handled result => exact done result
      | unmatched id => exact done _

theorem catching {settle : α → Act V σ β} {body : Act V σ α} {total : TotalChain V σ β}
    (runs : Frank past body Whatever)
    (settles : ∀ later value, past <+: later → Frank later (settle value) Whatever)
    (frank : ∀ handler ∈ total.chain.handlers, handler.Frank past) :
    Frank past (catching settle body total) Whatever := by
  refine during host _ fun _ => bind runs.attempt fun _ ended goes _ => ?_
  cases ended with
  | ok value => exact settles _ value goes
  | error object =>
      exact bind (keep host object) fun _ id further _ =>
        (dispatchTotal host frank id).lasts (goes.trans further)

theorem catchUnwinding {body : Act V σ α} {total : TotalChain V σ α}
    (runs : Frank past body Whatever)
    (frank : ∀ handler ∈ total.chain.handlers, handler.Frank past) :
    Frank past (catchUnwinding body total) Whatever :=
  catching host runs (fun _ value _ => done value) frank

theorem catchBoth {body : Act V σ (Except FailureId α)} {total : TotalChain V σ α}
    (runs : Frank past body Whatever)
    (frank : ∀ handler ∈ total.chain.handlers, handler.Frank past) :
    Frank past (catchBoth body total) Whatever := by
  rw [catchBoth_eq]
  refine catching host runs (fun later ended goes => ?_) frank
  cases ended with
  | ok value => exact done value
  | error id => exact (dispatchTotal host frank id).lasts goes

end Blocks

end Act.Frank

namespace Operation

variable [Host V σ]

/-- What the program puts into the operation is frank, and no tally is made up. -/
def Frank (past : List Consultation) : Operation V σ → Prop
  | record key value _ | put key _ value => Payload.Justified past ⟨key, value⟩
  | newFailure payloads => ∀ payload ∈ payloads, payload.Justified past
  | unpack parcel => ∀ payload ∈ parcel.payloads, payload.Justified past
  | editTop key change => key = .tally → Uncounted past → change none = none
  | lend key _ use => ∀ later value, past <+: later → Payload.Justified later ⟨key, value⟩ →
      Act.Frank later (use value) Whatever
  | drop guard => guard.context.Frank past
  | dispatch chain _ => ∀ handler ∈ chain.handlers, handler.Frank past
  | dispatchTotal total _ => ∀ handler ∈ total.chain.handlers, handler.Frank past
  | handleAll body total | catchBoth body total => Act.Frank past body Whatever ∧
      ∀ handler ∈ total.chain.handlers, handler.Frank past
  | catchUnwinding body total => Act.Frank past body Whatever ∧
      ∀ handler ∈ total.chain.handlers, handler.Frank past
  | handleSome body chain => Act.Frank past body Whatever ∧
      ∀ handler ∈ chain.handlers, handler.Frank past
  | pack _ body => Act.Frank past body Whatever
  | mint | reserve | current | openFor _ _ | close _ _ | isOpen _ | depth _ | topId _ | holds _ _
  | valueFor _ _ | takeFor _ _ | enter _ | leave _ | arm _ | target _ | dismiss _ | declare _
  | collect _ _ | release _ | raise _ | unwind _ | unwinding | stop | identify _ | keep _ | inForce
  | adopt _ | tallying | types | endStorage => True

theorem Frank.run (host : FrankHost V σ) {operation : Operation V σ} (frank : operation.Frank past) :
    Act.Frank past operation.run Whatever := by
  cases operation with
  | mint => exact .map .mint
  | reserve => exact .map .reserve
  | current => exact .map .current
  | newFailure payloads => exact .map (.newFailure host frank)
  | record key value id => exact .map (.record host frank id)
  | openFor key owner => exact .map (.openFor key owner)
  | close key owner => exact .map (.close key owner)
  | put key id value => exact .map (.put frank id.raw)
  | editTop key change => exact .map (.editTop frank)
  | isOpen key => exact .map (.isOpen key)
  | depth key => exact .map (.reading (fun thread => (thread.stack key).depth) fun _ => rfl)
  | topId key => exact .map (.reading (fun thread => (thread.stack key).topId?) fun _ => rfl)
  | holds key id => exact .map (.holds key id.raw)
  | valueFor key id => exact .map (.valueFor key id.raw)
  | takeFor key id => exact .map (.takeFor key id.raw)
  | lend key id use => exact .map (.lend host frank)
  | enter scope => exact .map (.enter scope)
  | leave active => exact .map (.leave host active)
  | arm context => exact .map (.arm context)
  | target guard => exact .map (.target guard)
  | dismiss guard => exact .map (.dismiss host guard)
  | drop guard => exact .map (.drop host frank)
  | declare arguments => exact .map (.make host arguments [] _)
  | dispatch chain id =>
      refine .bind (.dispatch host frank id) fun _ outcome _ _ => ?_
      cases outcome with
      | handled reply => exact .done _
      | unmatched id => exact .done _
  | dispatchTotal total id => exact .map (.dispatchTotal host frank id)
  | handleAll body total => exact .map (.handleAll host frank.1 frank.2)
  | handleSome body chain =>
      refine .bind (.handleSome host frank.1 frank.2) fun _ ended _ _ => ?_
      cases ended with
      | ok reply => exact .done _
      | error id => exact .done _
  | catchUnwinding body total => exact .map (.catchUnwinding host frank.1 frank.2)
  | catchBoth body total => exact .map (.catchBoth host frank.1 frank.2)
  | pack keys body =>
      refine .bind (.pack host keys frank) fun _ ended _ _ => ?_
      cases ended with
      | ok reply => exact .done _
      | error parcel => exact .done _
  | collect id keys => exact .map (.collect id keys)
  | unpack parcel => exact .map (.unpack host frank)
  | release payloads => exact .map (.releaseAll host payloads)
  | raise id => exact .bind (.emit _) fun _ _ _ _ => .unwind _
  | unwind object => exact .unwind object
  | unwinding => exact .map .unwinding
  | stop => exact .map (.modifyThread fun _ => rfl)
  | identify object => exact .map (.identify object)
  | keep object => exact .map (.keep host object)
  | inForce => exact .map .inForce
  | adopt settings => exact .map (.adopt settings)
  | tallying => exact .map .tallying
  | types => exact .map (.reading (fun thread => (thread.store.map Store.types).getD 0) fun _ => rfl)
  | endStorage => exact .map (.endStorage host)

end Operation

end FaultRelay

import FaultRelay.Proofs.Blocks
import FaultRelay.Scenario.Application

/-! A small application for examples: when an echo ends, its destructor records the number it held
as a code. Nothing else has an effect. -/
namespace FaultRelay.Scenario

def echoed : FailureId := .numbered 1

def endCode (value : Int) : Quiet application (Ledger application Unit) Unit :=
  Quiet.modifyHost (·.noteEnded (payload .code value))

instance : Observer Unit := ⟨fun _ state => state⟩

instance : Client application Unit where
  parting kind value :=
    match kind, value with
    | .echo, number => do
        modify (World.noteMade (payload .code number))
        discard (recordEnding (.app .code) endCode number echoed)
    | _, _ => pure ()
  declared _ _ := pure ()
  available _ _ := return true
  produced _ := return none

theorem endCode_conducts {hand : Hand application} (value : Int)
    (world : World application (Ledger application Unit)) :
    Conducts (.value (payload .code value) ::ₘ hand) (endCode value) world hand := by
  have ends : Linear (.value (payload .code value) ::ₘ hand)
      (quietly (release (Topic.ofKind .code) value)) world [.ended (payload .code value), .other]
      hand := .release (.idle (.refl _))
  exact ⟨_, ends⟩

theorem make_conducts {hand : Hand application} (kind : Kind) (value : kind.Value)
    (world : World application (Ledger application Unit)) :
    Conducts hand (make (V := application) kind value) world
      (.value (payload kind value) ::ₘ hand) :=
  ⟨_, Linear.make (V := application) kind value⟩

instance : Orderly application Unit where
  parting kind value hand world := by
    cases kind with
    | echo =>
        have ends : ∀ (number : (Topic.ofKind .code).Value)
            (world : World application (Ledger application Unit)),
            Conducts (.value ⟨Topic.ofKind .code, number⟩ ::ₘ hand) (endCode number) world hand :=
          endCode_conducts
        have records : ∀ world : World application (Ledger application Unit),
            Conducts (.value (payload .code value) ::ₘ hand)
              (recordEnding (Topic.ofKind .code) endCode value echoed) world hand :=
          fun _ => recordEnding_conducts ends value echoed
        exact .bind (make_conducts .code value world) (.ignore (records _))
    | code | name | flag | tags | unit | noisy | byte | string => exact .pure ()
  declared _ _ _ _ := .pure ()
  available _ _ _ _ := .pure true
  produced _ _ _ := .pure none

def dawn : World application (Ledger application Unit) :=
  ⟨⟨0, none, none⟩, .fresh application, ⟨(), [], []⟩⟩

def outerScope : Scope application := ⟨.ofKeys [Topic.ofKind .code, Topic.ofKind .echo]⟩

def innerScope : Scope application := ⟨.ofKeys [Topic.ofKind .echo, .tally]⟩

def shout (number : Int) : Act application (Ledger application Unit) Unit := do
  quietly (make .echo number)
  discard (quietly (record (Topic.ofKind .echo) number echoed))

/-- Two scopes that overlap: the outer one is left first, while the inner one stays open. The echo
of the outer scope ends in between, and is heard by the half of that scope that is still open. -/
def overlap : Act application (Ledger application Unit) (OpenScope application) := do
  let outer ← quietly outerScope.enter
  shout 7
  let inner ← quietly innerScope.enter
  shout 8
  quietly outer.leave
  return inner

def overlapAround (within : Act application (Ledger application Unit) Unit) :
    Act application (Ledger application Unit) (OpenScope application) := do
  let outer ← quietly outerScope.enter
  shout 7
  let inner ← quietly innerScope.enter
  shout 8
  within
  quietly outer.leave
  return inner

def overlapping : World application (Ledger application Unit) :=
  (shout 8 (innerScope.enter (shout 7 (outerScope.enter dawn).2).2).2).2

def hearer : Handler application (Ledger application Unit) Unit where
  arguments := [.take (Topic.ofKind .echo)]
  conditions := []
  respond readings := quietly (readings.forM Reading.discard)

def bystander : Handler application (Ledger application Unit) Unit where
  arguments := []
  conditions := []
  respond readings := quietly (readings.forM Reading.discard)

def listeners : TotalChain application (Ledger application Unit) Unit :=
  (Chain.empty.add hearer).endWith bystander rfl

def fail (number : Int) : Act application (Ledger application Unit) (Except FailureId Unit) := do
  shout number
  return .error echoed

def lament (number : Int) : Act application (Ledger application Unit) Unit := do
  quietly (make .echo number)
  raise [payload .echo number]

def reply (number : Int) : Act application (Ledger application Unit) Int := do
  quietly (make .echo number)
  return number

/-- A guard that was made before any failure is dropped, and calls back for an echo. -/
def callBack (number : Int) : Act application (Ledger application Unit) Unit :=
  Guard.drop (κ := fun key => Act application (Ledger application Unit) key.Value)
    (fun _ code => code) ⟨.deferred (Topic.ofKind .echo) (reply number), none, false⟩

def reverberate (number : Int) :
    Act application (Ledger application Unit) (Except FailureId Unit) := do
  match ← Parcel.pack [Topic.ofKind .echo] (fail number) with
  | .ok () => return .ok ()
  | .error parcel => return .error (← quietly parcel.unpack)

/-- Handling blocks whose bodies fail with echoes of their own, the second one by unwinding. The last
failure passes through a block that has no handler for it. One more handler is made and not used. -/
@[irreducible] def aside (number : Int) : Act application (Ledger application Unit) Unit :=
  catchBoth (do
    discard (Handler.make hearer.arguments hearer.conditions hearer.respond)
    handleAll (fail number) listeners
    catchUnwinding (lament (number + 2)) listeners
    callBack (number + 3)
    handleSome (reverberate (number + 1)) .empty) listeners

def interlude : Act application (Ledger application Unit) (OpenScope application) :=
  overlapAround (aside 9)

theorem make_trades (number : Int) :
    Trades 0 (quietly (make (V := application) (σ := Unit) Kind.echo number))
      fun _ => {.value (payload .echo number)} :=
  .gained fun _ world => make_conducts .echo number world

theorem shout_trades (number : Int) : Trades 0 (shout number) fun _ => 0 := by
  have recorded : Trades {.value (payload .echo number)}
      (quietly (record (σ := Ledger application Unit) (Topic.ofKind .echo) number echoed))
      fun _ => 0 := .spent fun _ _ => record_conducts _ _ _
  exact (make_trades number).bind fun _ => recorded.bind fun _ => .pure () rfl

theorem listeners_linear : ∀ handler ∈ listeners.chain.handlers, handler.IsLinear fun _ => 0 := by
  have answers : ∀ readings : List (Reading application),
      Trades (.values (Arguments.payloads readings))
        (quietly (readings.forM Reading.discard) : Act application (Ledger application Unit) Unit)
        fun _ => 0 :=
    fun readings => .spent fun _ _ => Arguments.discard_conducts readings
  intro handler listed
  have either : handler = hearer ∨ handler = bystander := by
    simpa [listeners, Chain.endWith, Chain.add, Chain.empty] using listed
  rcases either with rfl | rfl
  · exact ⟨by simp [hearer], answers⟩
  · exact ⟨by simp [bystander], answers⟩

theorem fail_trades (number : Int) : Trades 0 (fail number) (Except.owned fun _ => 0) :=
  (shout_trades number).bind fun _ => .pure _ rfl

theorem lament_trades (number : Int) : Trades 0 (lament number) fun _ => 0 :=
  (make_trades number).bind fun _ => raise_trades [payload .echo number]

theorem callBack_trades (number : Int) : Trades 0 (callBack number) fun _ => 0 := by
  have replies : Trades 0 (reply number) fun value => {.value (payload .echo value)} :=
    (make_trades number).bind fun _ => .pure number rfl
  exact Guard.drop_trades rfl replies

theorem reverberate_trades (number : Int) :
    Trades 0 (reverberate number) (Except.owned fun _ => 0) := by
  refine (Parcel.pack_trades (fail_trades number) [Topic.ofKind .echo]).bind fun ended => ?_
  cases ended with
  | ok done => exact .pure _ rfl
  | error parcel =>
      have unpacked : Trades {.parcel parcel.payloads} (quietly (parcel.unpack :
          Quiet application (Ledger application Unit) FailureId)) fun _ => 0 :=
        .spent fun _ _ => unpack_conducts parcel
      exact unpacked.bind fun _ => .pure _ rfl

theorem aside_trades (number : Int) : Trades 0 (aside number) fun _ => 0 := by
  unfold aside
  have heard := handleAll_trades (fail_trades number) listeners_linear
  have caught := catchUnwinding_trades (lament_trades (number + 2)) listeners_linear
  have passed := handleSome_trades (reverberate_trades (number + 1))
    (fun handler (listed : handler ∈ Chain.empty.handlers) => by cases listed)
  have called := callBack_trades (number + 3)
  have made : Trades 0
      (discard (Handler.make hearer.arguments hearer.conditions hearer.respond)) fun _ => 0 :=
    (Handler.make_trades _ _ _).bind fun _ => .pure () rfl
  exact catchBoth_trades (made.bind fun _ => heard.bind fun _ => caught.bind fun _ =>
    called.bind fun _ => passed) listeners_linear

theorem overlapAround_linear {within : Act application (Ledger application Unit) Unit}
    (trades : Trades 0 within fun _ => 0) (returned : (within overlapping).1 = .ok ()) :
    ∃ deeds, Linear 0 (overlapAround within) dawn deeds
      {.scope ⟨innerScope.interest, .numbered 2, false⟩} := by
  let first : OpenScope application := ⟨outerScope.interest, .numbered 1, false⟩
  let outer : Holding application := .scope first
  let inner : Holding application := .scope ⟨innerScope.interest, .numbered 2, false⟩
  let opened := (outerScope.enter dawn).2
  let again := (innerScope.enter (shout 7 opened).2).2
  obtain ⟨_, seven⟩ := (shout_trades 7).returned {outer} (rfl : (shout 7 opened).1 = .ok ())
  obtain ⟨_, eight⟩ := (shout_trades 8).returned {inner, outer} (rfl : (shout 8 again).1 = .ok ())
  obtain ⟨_, middle⟩ := trades.returned {inner, outer} returned
  have leaves : Conducts {inner, outer} first.leave (within overlapping).2 {inner} := by
    rw [Multiset.pair_comm]
    exact leave_conducts _
  obtain ⟨_, leaving⟩ := leaves
  rw [zero_add] at seven eight middle
  exact ⟨_, .bind (.enter outerScope) rfl (.bind seven rfl (.bind (.enter innerScope) rfl
    (.bind eight rfl (.bind middle returned (.bind leaving rfl (.idle (.refl _)))))))⟩

theorem ok_of_toOption {ε α : Type} {ended : Except ε α} {value : α}
    (returned : ended.toOption = some value) : ended = .ok value := by
  cases ended with
  | ok other => exact congrArg Except.ok (Option.some.inj returned)
  | error exit => cases returned

theorem interlude_linear :
    ∃ deeds, Linear 0 interlude dawn deeds {.scope ⟨innerScope.interest, .numbered 2, false⟩} :=
  overlapAround_linear (aside_trades 9) (ok_of_toOption (by decide +kernel))

def echoOf (world : World application (Ledger application Unit)) : Option Int :=
  (world.thread.stack (Topic.ofKind .echo)).valueFor echoed.raw

end FaultRelay.Scenario

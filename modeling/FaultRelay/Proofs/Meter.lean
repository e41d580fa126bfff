import FaultRelay.Proofs.Balance
import FaultRelay.Proofs.Clause

/-! What the tally of a failure amounts to, whatever a body does. A stray is counted in the innermost
tally frame, and a frame that has no tally yet starts to count from one. When such a frame is closed
its tally goes over the one beneath. So a report tells the strays since the last one that found a new
frame; those before it are forgotten. The meter runs along a course and keeps both lists. -/
namespace FaultRelay

variable {V : Vocabulary} {σ : Type}

def Tally.of : List String → Option Tally
  | [] => none
  | first :: rest => some ⟨first, rest.length + 1⟩

namespace Tally

theorem length_of {first second : List String} (same : of first = of second) :
    first.length = second.length := by
  rcases first with _ | ⟨name, first⟩ <;> rcases second with _ | ⟨other, second⟩ <;>
    simp_all [of]

end Tally

/-- The strays that the innermost tally tells, those it does not tell any more, and the owners of the
frames above it, which have no tally. -/
structure Meter where
  forgotten : List String
  heard : List String
  pending : List Token

def Deed.stray? : Deed V → Option String
  | counted name _ => some name
  | _ => none

/-- What may happen to the tally while a block counts the strays of the failure with number `id`
alone: its own frame stays open, and nobody puts a tally in a slot or gets one out. -/
def Deed.OnlyCounts (id : Nat) (owner : Token) : Deed V → Prop
  | .counted _ tag => tag = id
  | .closed key closer _ => key = .tally → closer ≠ owner
  | .put key _ _ _ => key ≠ .tally
  | .taken key _ answer => key = .tally → answer = none
  | .lent lend | .returned lend _ => lend.key ≠ .tally
  | .storageEnded _ => False
  | _ => True

namespace Meter

def start (owner : Token) : Meter := ⟨[], [], [owner]⟩

/-- One more stray; a frame without a tally starts anew. -/
def count (name : String) (meter : Meter) : Meter :=
  if meter.pending = [] then { meter with heard := meter.heard ++ [name] }
  else ⟨meter.forgotten ++ meter.heard, [name], []⟩

def after (meter : Meter) : Deed V → Meter
  | .entered scope =>
      if scope.interest.keys.contains .tally then
        { meter with pending := scope.token :: meter.pending }
      else meter
  | .closed key owner _ =>
      if key = .tally then { meter with pending := meter.pending.erase owner } else meter
  | .counted name _ => meter.count name
  | _ => meter

def of (owner : Token) (deeds : List (Deed V)) : Meter := deeds.foldl after (start owner)

theorem after_entered (meter : Meter) (scope : OpenScope V) :
    meter.after (.entered scope) =
      if .tally ∈ scope.interest.keys then { meter with pending := scope.token :: meter.pending }
      else meter := by
  simp [after]

theorem after_closed (meter : Meter) (key : Key V) (owner : Token) (answer : Closed key.Value) :
    meter.after (.closed key owner answer) =
      if key = .tally then { meter with pending := meter.pending.erase owner } else meter := rfl

theorem foldl_elsewhere (meter : Meter) (deeds : List (Deed V)) :
    (deeds.map Deed.elsewhere).foldl after meter = meter := by
  induction deeds with
  | nil => rfl
  | cons deed rest ih => exact ih

theorem strays_after (meter : Meter) (deed : Deed V) :
    (meter.after deed).forgotten ++ (meter.after deed).heard =
      meter.forgotten ++ meter.heard ++ deed.stray?.toList := by
  cases deed with
  | counted name id =>
      change (meter.count name).forgotten ++ (meter.count name).heard = _ ++ [name]
      unfold count
      split
      · exact (List.append_assoc _ _ _).symm
      · rfl
  | entered scope =>
      rw [after_entered]
      split <;> exact (List.append_nil _).symm
  | closed key owner answer =>
      rw [after_closed]
      split <;> exact (List.append_nil _).symm
  | _ => exact (List.append_nil _).symm

theorem strays_of (owner : Token) (deeds : List (Deed V)) :
    (of owner deeds).forgotten ++ (of owner deeds).heard = deeds.filterMap Deed.stray? := by
  have run : ∀ meter : Meter, (deeds.foldl after meter).forgotten ++ (deeds.foldl after meter).heard =
      meter.forgotten ++ meter.heard ++ deeds.filterMap Deed.stray? := by
    induction deeds with
    | nil => exact fun meter => (List.append_nil _).symm
    | cons deed rest ih =>
        intro meter
        rw [List.foldl_cons, ih, strays_after, List.append_assoc]
        cases stray : deed.stray? with
        | none => rw [List.filterMap_cons_none stray]; rfl
        | some name => rw [List.filterMap_cons_some stray]; rfl
  exact run (start owner)

/-- The tally is that of all strays just when none was forgotten. -/
theorem tally_of_strays_iff (owner : Token) (deeds : List (Deed V)) :
    Tally.of (of owner deeds).heard = Tally.of (deeds.filterMap Deed.stray?) ↔
      (of owner deeds).forgotten = [] := by
  rw [← strays_of owner]
  constructor
  · intro same
    have lengths := Tally.length_of same
    rw [List.length_append] at lengths
    exact List.length_eq_zero_iff.1 (by omega)
  · intro none
    rw [none, List.nil_append]

/-- No stray was forgotten, nor will the next one be if no frame is opened before it. -/
def IsWhole (meter : Meter) : Prop :=
  meter.forgotten = [] ∧ (meter.heard = [] ∨ meter.pending = [])

theorem IsWhole.after {meter : Meter} (whole : meter.IsWhole) {deed : Deed V}
    (alone : ∀ scope, deed = .entered scope → .tally ∉ scope.interest.keys) :
    (meter.after deed).IsWhole := by
  obtain ⟨none, settled⟩ := whole
  cases deed with
  | counted name id =>
      change (meter.count name).IsWhole
      unfold count
      split
      · rename_i clear
        exact ⟨none, .inr clear⟩
      · rename_i pending
        have unheard : meter.heard = [] := settled.resolve_right pending
        exact ⟨by rw [none, unheard]; rfl, .inr rfl⟩
  | entered scope =>
      rw [after_entered, if_neg (alone scope rfl)]
      exact ⟨none, settled⟩
  | closed key owner answer =>
      rw [after_closed]
      split
      · exact ⟨none, settled.imp_right fun clear => by rw [clear]; rfl⟩
      · exact ⟨none, settled⟩
  | _ => exact ⟨none, settled⟩

theorem forgotten_of_alone (owner : Token) {deeds : List (Deed V)}
    (alone : ∀ scope, .entered scope ∈ deeds → .tally ∉ scope.interest.keys) :
    (of owner deeds).forgotten = [] := by
  have run : ∀ meter : Meter, meter.IsWhole → (deeds.foldl after meter).IsWhole := by
    induction deeds with
    | nil => exact fun meter whole => whole
    | cons deed rest ih =>
        intro meter whole
        refine ih (fun scope listed => alone scope (List.mem_cons_of_mem deed listed)) _ ?_
        exact whole.after fun scope same => alone scope (List.mem_cons.2 (.inl same.symm))
  exact (run (start owner) ⟨rfl, .inl rfl⟩).1

/-- The frames of the tally, seen from the innermost one down to that of `owner`, are as the meter
has them: first the pending ones, then the one that tells what was heard. -/
inductive Shows (owner : Token) (id : Nat) :
    List String → List Token → List (Frame Tally) → Prop
  | fresh {frame : Frame Tally} {below : List (Frame Tally)} (own : frame.owner = owner)
      (empty : frame.held = none) : Shows owner id [] [owner] (frame :: below)
  | telling {frame : Frame Tally} {below : List (Frame Tally)} {first : String} {rest : List String}
      (inside : owner ∈ (frame :: below).map Frame.owner)
      (held : frame.held = some (id, ⟨first, rest.length + 1⟩)) :
      Shows owner id (first :: rest) [] (frame :: below)
  | opened {frame : Frame Tally} {below : List (Frame Tally)} {heard : List String}
      {pending : List Token} (apart : frame.owner ≠ owner) (empty : frame.held = none)
      (shows : Shows owner id heard pending below) :
      Shows owner id heard (frame.owner :: pending) (frame :: below)

section Frames

variable {owner other : Token} {id : Nat} {heard : List String} {pending : List Token}
  {frames : List (Frame Tally)}

theorem Shows.inside (shows : Shows owner id heard pending frames) :
    owner ∈ frames.map Frame.owner := by
  induction shows with
  | fresh own => exact List.mem_cons.2 (.inl own.symm)
  | telling inside => exact inside
  | opened _ _ _ ih => exact List.mem_cons_of_mem _ ih

theorem Shows.valueFor (shows : Shows owner id heard pending frames)
    (innermost : (frames.head?.map Frame.owner) = some owner) :
    Stack.valueFor ⟨frames⟩ id = Tally.of heard := by
  cases shows with
  | fresh own empty => simp [Stack.valueFor, Stack.top?, Frame.valueFor, Frame.value?, empty, Tally.of]
  | telling inside held =>
      simp [Stack.valueFor, Stack.top?, Frame.valueFor, Frame.holds, Frame.id, Frame.value?, held,
        Tally.of]
  | opened apart empty shows => exact absurd (by simpa using innermost) apart

theorem Shows.count (shows : Shows owner id heard pending frames) (name : String)
    (forgotten : List String) :
    Shows owner id (Meter.count name ⟨forgotten, heard, pending⟩).heard
      (Meter.count name ⟨forgotten, heard, pending⟩).pending
      (Stack.onTop (fun top => { top with held := countStray name id top.held }) ⟨frames⟩).frames := by
  have inside := shows.inside
  cases shows with
  | fresh own empty => exact .telling inside (by simp [empty, countStray, Tally.one])
  | telling _ held =>
      refine .telling inside ?_
      simp [held, countStray, Tally.more]
  | opened apart empty shows => exact .telling inside (by simp [empty, countStray, Tally.one])

/-- A frame above that of the block is closed: the pending ones go without trace, and the one that
tells hands down what it tells. -/
theorem Shows.close (shows : Shows owner id heard pending frames) (apart : other ≠ owner)
    (once : ∀ frame ∈ frames, frame.refs = 1) :
    Shows owner id heard (pending.erase other) (Stack.closeFrames other frames).2 := by
  induction shows with
  | @fresh frame below own empty =>
      have differ : frame.owner ≠ other := fun same => apart (same.symm.trans own)
      rw [Stack.closeFrames, if_neg differ, List.erase_cons_tail (by simpa using apart.symm)]
      exact .fresh own empty
  | @telling frame below first rest inside held =>
      have kept := (Stack.mem_owners_closeFrames apart).2 inside
      by_cases theirs : frame.owner = other
      · have single : ¬1 < frame.refs := by rw [once frame List.mem_cons_self]; omega
        rw [Stack.closeFrames, if_pos theirs, if_neg single, held] at kept ⊢
        cases below with
        | nil => cases kept
        | cons outer deeper => exact .telling kept rfl
      · rw [Stack.closeFrames, if_neg theirs] at kept ⊢
        exact .telling kept held
  | @opened frame below heard pending differ empty shows ih =>
      by_cases theirs : frame.owner = other
      · have single : ¬1 < frame.refs := by rw [once frame List.mem_cons_self]; omega
        rw [Stack.closeFrames, if_pos theirs, if_neg single, empty, theirs, List.erase_cons_head]
        exact shows
      · have later := ih fun frame listed => once frame (List.mem_cons_of_mem _ listed)
        rw [Stack.closeFrames, if_neg theirs, List.erase_cons_tail (by simpa using theirs)]
        exact .opened differ empty later

end Frames

section Steps

variable [Client V σ] {owner : Token} {id : Nat} {meter : Meter} {first last : Scene V σ}
  {hand hands : Hand V} {lends fewer : List (Lend V)} {world next : World V (Ledger V σ)}
  {mounts : List (Mount V)}

def Fits (owner : Token) (id : Nat) (meter : Meter) (scene : Scene V σ) : Prop :=
  Shows owner id meter.heard meter.pending (scene.world.thread.stack .tally).frames

omit [Client V σ] in
theorem Fits.alive (fits : Fits owner id meter first) : first.world.thread.store ≠ none := by
  have frames : (first.world.thread.stack .tally).frames ≠ [] := by
    intro none
    have inside := fits.inside
    rw [none] at inside
    cases inside
  exact Thread.alive_of_frames frames

omit [Client V σ] in
theorem Fits.elsewhere (fits : Fits owner id meter (⟨hand, lends, world⟩ : Scene V σ)) {key : Key V}
    (differ : key ≠ .tally) {stack : Stack key.Value}
    (thread : next.thread = world.thread.setStack key stack) :
    Fits owner id meter (⟨hands, fewer, next⟩ : Scene V σ) := by
  unfold Fits
  rw [thread, Thread.stack_setStack_other _ _ (Ne.symm differ)]
  exact fits

theorem Fits.enter (fits : Fits owner id meter (⟨hand, lends, world⟩ : Scene V σ))
    (represents : Represents mounts (⟨hand, lends, world⟩ : Scene V σ)) (scope : Scope V) :
    Fits owner id (meter.after (.entered (scope.enter world).1))
      (⟨.scope (scope.enter world).1 ::ₘ hand, lends, (scope.enter world).2⟩ : Scene V σ) := by
  have fresh : world.thread.Fresh := represents.thread_fresh
  unfold Fits
  rw [frames_enter scope fresh fits.alive, after_entered, enter_apply]
  split
  · obtain ⟨frame, listed, own⟩ := List.mem_map.1 fits.inside
    have apart : (Frame.fresh (.numbered (world.thread.lastToken + 1)) : Frame Tally).owner ≠ owner := by
      intro same
      have within := fresh.within _ listed (world.thread.lastToken + 1) (own.trans same.symm)
      omega
    exact .opened apart rfl fits
  · exact fits

omit [Client V σ] in
theorem Fits.close (fits : Fits owner id meter (⟨hand, lends, world⟩ : Scene V σ))
    (represents : Represents mounts (⟨hand, lends, world⟩ : Scene V σ)) {key : Key V}
    {closer : Token} (apart : key = .tally → closer ≠ owner) :
    Fits owner id (meter.after (.closed key closer (Slot.close key closer world).1))
      (⟨hands, lends, (Slot.close key closer world).2⟩ : Scene V σ) := by
  rw [after_closed]
  split
  · rename_i same
    subst same
    have closed : (Slot.close .tally closer world).2.thread.stack .tally =
        ((world.thread.stack .tally).close closer).2 := Thread.stack_close _ _ _
    unfold Fits
    rw [closed]
    exact Shows.close fits (apart rfl) fun frame listed =>
      represents.opened_once fits.alive .tally frame listed
  · rename_i differ
    exact fits.elsewhere differ rfl

theorem Fits.step {deed : Deed V} (fits : Fits owner id meter first)
    (represents : Represents mounts first) (does : Does first deed last)
    (counts : deed.OnlyCounts id owner) : Fits owner id (meter.after deed) last := by
  cases does with
  | other unmoved =>
      unfold Fits
      rw [unmoved.stack]
      exact fits
  | arm | disarm | pack | unpack | make | finish | startLeaving | keepBack => exact fits
  | leave closer tallies => cases tallies <;> exact fits
  | enter scope => exact fits.enter represents scope
  | close closer key rest tallies => exact fits.close represents counts
  | put key tag value => exact fits.elsewhere counts rfl
  | @take hand lends world key tag =>
      by_cases same : key = .tally
      · subst same
        have absent : (world.thread.stack .tally).valueFor tag = none := counts rfl
        rw [takeFor_absent absent]
        exact fits
      · exact fits.elsewhere same rfl
  | @count hand lends world name tag =>
      obtain rfl : tag = id := counts
      have counted : (Slot.editTop .tally (countStray name tag) world).2.thread.stack .tally =
          (world.thread.stack .tally).onTop fun top =>
            { top with held := countStray name tag top.held } :=
        Thread.stack_setStack fits.alive _ _
      unfold Fits
      rw [counted]
      exact Shows.count fits name meter.forgotten
  | lend lend innermost theirs held => exact fits.elsewhere counts rfl
  | giveBack lend welcome => exact fits.elsewhere counts rfl
  | endStorage => exact counts.elim

theorem Fits.course {deeds : List (Deed V)} (fits : Fits owner id meter first)
    (represents : Represents mounts first) (course : Course first deeds last)
    (counts : ∀ deed ∈ deeds, deed.OnlyCounts id owner) :
    Fits owner id (deeds.foldl after meter) last := by
  induction course generalizing meter mounts with
  | done => exact fits
  | step does rest ih =>
      obtain ⟨now, further⟩ := List.forall_mem_cons.1 counts
      obtain ⟨later, described, _⟩ := represents.step does
      exact ih (fits.step represents does now) described further
  | @thread given kept brought lends world later within deeds last portable inner ended rest _ ih =>
      -- a thread that was waited for has tally frames of its own
      rw [List.foldl_append, foldl_elsewhere]
      exact ih fits (represents.wait portable later) fun deed listed =>
        counts deed (List.mem_append_right _ listed)

end Steps

end Meter

structure Scope.Listens (scope : Scope V) : Prop where
  opens : .tally ∈ scope.interest.keys
  asks : scope.interest.tallies = true

/-- A block listens if one of its handlers takes a report. -/
theorem Scope.listens_forHandlers {ρ : Type} {handlers : List (Handler V σ ρ)}
    {handler : Handler V σ ρ} (listed : handler ∈ handlers) (reports : .report ∈ handler.arguments) :
    (Scope.forHandlers handlers).Listens := by
  have declared : .counting ∈ handler.arguments.filterMap Argument.declaration? :=
    List.mem_filterMap.2 ⟨.report, reports, rfl⟩
  have opens : .tally ∈ handler.interest.keys := by
    unfold Handler.interest Arguments.interest Interest.ofList
    rw [Interest.mem_keys_extend, Interest.mem_keys_extend]
    exact .inl (.inr (List.mem_map.2 ⟨_, declared, rfl⟩))
  have asks : handler.interest.tallies = true := by
    unfold Handler.interest Arguments.interest Interest.ofList
    rw [Interest.tallies_extend, Interest.tallies_extend,
      List.any_eq_true.2 ⟨_, declared, rfl⟩, Bool.or_true, Bool.true_or]
  constructor
  · unfold Scope.forHandlers Interest.ofList
    rw [Interest.mem_keys_extend, List.map_flatMap]
    exact .inr (List.mem_flatMap.2 ⟨handler, listed, opens⟩)
  · unfold Scope.forHandlers Interest.ofList
    rw [Interest.tallies_extend, List.any_flatMap, List.any_eq_true.2 ⟨handler, listed, asks⟩,
      Bool.or_true]

section Reports

variable [Client V σ] {hand : Hand V} {lends : List (Lend V)} {world : World V (Ledger V σ)}

theorem noteStray_course (key : Key V) (id : FailureId) (on : world.settings.diagnostics = true)
    (wanted : 0 < world.thread.tallying) :
    Course ⟨hand, lends, world⟩ [.other, .counted key.name id.raw]
      ⟨hand, lends, (noteStray key id world).2⟩ := by
  have counts : (world.settings.diagnostics && decide (0 < world.thread.tallying)) = true := by
    rw [on, decide_eq_true wanted]
    rfl
  have moved : Unmoved world (world.strayed key id) := ⟨rfl, rfl, rfl, rfl, rfl⟩
  rw [noteStray_apply, if_pos counts]
  exact .step (.other moved) (Does.count key.name id.raw).course

/-- A payload that is recorded and finds no slot is counted after it has ended. -/
theorem record_closed_course {key : Key V} {value : key.Value} (id : FailureId)
    (closed : world.thread.stack key = .empty) {deeds : List (Deed V)}
    (ends : Course ⟨.value ⟨key, value⟩ ::ₘ hand, lends, world⟩ deeds
      ⟨hand, lends, (release key value world).2⟩)
    (on : (release key value world).2.settings.diagnostics = true)
    (wanted : 0 < (release key value world).2.thread.tallying) :
    Course ⟨.value ⟨key, value⟩ ::ₘ hand, lends, world⟩
      (.put key id.raw value (.rejected value) :: deeds ++ [.other, .counted key.name id.raw])
      ⟨hand, lends, (record key value id world).2⟩ := by
  have refused := put_closed closed id.raw value
  have put : Does ⟨.value ⟨key, value⟩ ::ₘ hand, lends, world⟩
      (.put key id.raw value (.rejected value)) ⟨.value ⟨key, value⟩ ::ₘ hand, lends, world⟩ := by
    have does : Does (⟨.value ⟨key, value⟩ ::ₘ hand, lends, world⟩ : Scene V σ) _ _ :=
      .put key id.raw value
    rwa [refused, Stored.freed, Hand.values_one] at does
  rw [record_apply, refused]
  exact .step put (ends.append (noteStray_course key id on wanted))

structure Counts (active : OpenScope V) (id : FailureId) (within : List (Deed V))
    (last : Scene V σ) : Prop where
  /-- As long as the block is open, every further stray is counted. -/
  next : last.world.settings.diagnostics = true → .scope active ∈ last.hand → ∀ key : Key V,
    Course last [.other, .counted key.name id.raw]
      ⟨last.hand, last.lends, (noteStray key id last.world).2⟩
  /-- Once the scopes above the block are closed, a report tells the strays that were not forgotten,
  which are all just when none was forgotten. -/
  report : (last.world.thread.stack .tally).top?.map Frame.owner = some active.token →
    ∀ case : Case V, case.id = id → ∃ report,
      Argument.produce case .report last.world = (some (.report report), last.world) ∧
      report.dropped = Tally.of (Meter.of active.token within).heard ∧
      (report.dropped = Tally.of (within.filterMap Deed.stray?) ↔
        (Meter.of active.token within).forgotten = [])
  /-- None is forgotten while no scope within the block has a slot for a tally. -/
  alone : (∀ scope, .entered scope ∈ within → .tally ∉ scope.interest.keys) →
    (Meter.of active.token within).forgotten = []

/-- Whatever a body does in a block that listens, the block's report tells the strays that the meter
has not forgotten: those since the last one that found a tally frame opened after the one before. -/
theorem reports_tell_what_the_meter_has_heard {α : Type}
    {body : Act V (Ledger V σ) α} {start : World V (Ledger V σ)} {given left : Hand V}
    {earlier own : List (Deed V)} {scope : Scope V} (fresh : start.thread = .fresh V)
    (portable : ∀ holding ∈ given, holding.isPortable = true)
    (before : Course ⟨given, [], start⟩ earlier ⟨hand, lends, world⟩)
    (alive : world.thread.store ≠ none) (listens : scope.Listens)
    (linear : Linear (.scope (scope.enter world).1 ::ₘ hand) body (scope.enter world).2 own left) :
    (∃ still, Course ⟨.scope (scope.enter world).1 ::ₘ hand, lends, (scope.enter world).2⟩
      own ⟨left, still ++ lends, (body (scope.enter world).2).2⟩) ∧
    ∀ (id : FailureId) (within : List (Deed V)) (last : Scene V σ),
      Course ⟨.scope (scope.enter world).1 ::ₘ hand, lends, (scope.enter world).2⟩ within last →
      (∀ deed ∈ within, deed.OnlyCounts id.raw (scope.enter world).1.token) →
      Counts (scope.enter world).1 id within last := by
  refine ⟨?_, fun id within last course counts => ?_⟩
  · obtain ⟨still, course, _⟩ := linear.settles lends
    exact ⟨still, course⟩
  obtain ⟨mounts, represents, _⟩ := (Represents.fresh fresh portable).course before
  have entered := represents.enter scope
  obtain ⟨later, described, _⟩ := entered.course course
  have opened : Meter.Fits (scope.enter world).1.token id.raw
      (Meter.start (scope.enter world).1.token)
      (⟨.scope (scope.enter world).1 ::ₘ hand, lends, (scope.enter world).2⟩ : Scene V σ) := by
    have frames := frames_enter scope represents.thread_fresh alive .tally
    rw [if_pos listens.opens] at frames
    unfold Meter.Fits
    rw [frames, enter_apply]
    exact .fresh rfl rfl
  have fits := opened.course entered course counts
  refine ⟨fun on inHand key => ?_, fun innermost case same => ?_, Meter.forgotten_of_alone _⟩
  · have asked : (scope.enter world).1.tallies = true := by rw [enter_apply]; exact listens.asks
    exact noteStray_course key id on (described.tallying_pos inHand asked)
  · have told : (last.world.thread.stack .tally).valueFor case.id.raw =
        Tally.of (Meter.of (scope.enter world).1.token within).heard := by
      rw [same]
      exact Meter.Shows.valueFor fits innermost
    have produced : Argument.produce case .report last.world =
        (some (.report (Argument.makeReport case last.world).1),
          (Argument.makeReport case last.world).2) := rfl
    rw [Argument.makeReport_apply, told] at produced
    exact ⟨_, produced, rfl, Meter.tally_of_strays_iff _ _⟩

end Reports

namespace Scenario

def mislay (kind : Kind) (value : kind.Value) : Act application (Ledger application Unit) Unit := do
  quietly (make (V := application) kind value)
  discard (quietly (record (Topic.ofKind kind) value echoed))

def reporter : Handler application (Ledger application Unit) (Option Tally) :=
  ⟨[.report], [], fun readings => pure <| match readings with
    | [.report report] => report.dropped
    | _ => none⟩

def listening : Scope application := .forHandlers [reporter]

/-- A code finds no slot, and then a name while a scope within listens too. -/
def mislayTwice : Act application (Ledger application Unit) Unit := do
  mislay .code (7 : Int)
  let inner ← quietly listening.enter
  mislay .name "x"
  quietly inner.leave

theorem mislay_linear {hand : Hand application} (kind : Kind) (value : kind.Value)
    (world : World application (Ledger application Unit)) :
    ∃ deeds, Linear hand (mislay kind value) world deeds hand := by
  have makes : Conducts hand _ world _ := make_conducts kind value world
  have records : ∀ world : World application (Ledger application Unit),
      Conducts (.value (payload kind value) ::ₘ hand)
        (record (σ := Ledger application Unit) (Topic.ofKind kind) value echoed) world hand :=
    fun _ => record_conducts (Topic.ofKind kind) value echoed
  obtain ⟨_, making⟩ := makes
  obtain ⟨_, recording⟩ := (records _).ignore
  exact ⟨_, .bind making rfl recording⟩

theorem mislayTwice_linear (hand : Hand application)
    (world : World application (Ledger application Unit)) :
    ∃ deeds, Linear hand mislayTwice world deeds hand := by
  obtain ⟨_, code⟩ := mislay_linear .code (7 : Int) world
  obtain ⟨_, name⟩ := mislay_linear .name "x" (listening.enter (mislay .code (7 : Int) world).2).2
  have leaves : ∀ (scope : OpenScope application)
      (world : World application (Ledger application Unit)),
      Conducts (.scope scope ::ₘ hand) scope.leave world hand := fun scope _ => leave_conducts scope
  obtain ⟨_, leaving⟩ := leaves _ _
  exact ⟨_, .bind code rfl (.bind (.enter listening) rfl (.bind name rfl leaving))⟩

def mislaid (kind : Kind) (value : kind.Value) : List (Deed application) :=
  [.made (payload kind value), .put (Topic.ofKind kind) echoed.raw value (.rejected value),
    .ended (payload kind value), .other, .counted kind.typeName echoed.raw]

theorem mislay_course {hand : Hand application} {lends : List (Lend application)}
    {world : World application (Ledger application Unit)} {kind : Kind} {value : kind.Value}
    (silent : kind ≠ .echo) (closed : world.thread.stack (Topic.ofKind kind) = .empty)
    (on : world.settings.diagnostics = true) (wanted : 0 < world.thread.tallying) :
    Course ⟨hand, lends, world⟩ (mislaid kind value)
      ⟨hand, lends, (mislay kind value world).2⟩ := by
  let made := world.noteMade (payload kind value)
  have ended : (release (Topic.ofKind kind) value made).2 = made.noteEnded (payload kind value) := by
    cases kind <;> first | rfl | exact absurd rfl silent
  have slotless : made.thread.stack (Topic.ofKind kind) = .empty := closed
  have ends : Course ⟨.value (payload kind value) ::ₘ hand, lends, made⟩
      [.ended (payload kind value)] ⟨hand, lends, (release (Topic.ofKind kind) value made).2⟩ := by
    rw [ended]
    exact (Does.finish (payload kind value)).course
  refine .step (.make (payload kind value)) (record_closed_course echoed slotless ends ?_ ?_)
  · rw [ended]
    exact on
  · rw [ended]
    exact wanted

theorem mislaid_counts (kind : Kind) (value : kind.Value) (owner : Token) :
    ∀ deed ∈ mislaid kind value, deed.OnlyCounts echoed.raw owner := by
  simp [mislaid, Deed.OnlyCounts, Topic.ofKind]

theorem listening_listens : listening.Listens :=
  Scope.listens_forHandlers (List.mem_singleton_self reporter) List.mem_cons_self

/-- The name meets the tally frame of the scope within, which has not heard of the code. Once that
scope is closed the report of the one around it tells the name alone. -/
theorem scope_within_forgets_the_code :
    ∃ within last,
      Course ⟨{.scope (listening.enter dawn).1}, [], (listening.enter dawn).2⟩ within last ∧
      within.filterMap Deed.stray? = ["app::types::Code", "app::types::Name"] ∧
      ∃ report, (Argument.produce ⟨echoed, .empty⟩ .report last.world).1 = some (.report report) ∧
        report.dropped = some ⟨"app::types::Name", 1⟩ := by
  let entered := listening.enter dawn
  let early := (mislay .code (7 : Int) entered.2).2
  let inner := listening.enter early
  let late := (mislay .name "x" inner.2).2
  have code : Course ⟨{.scope entered.1}, [], entered.2⟩ (mislaid .code (7 : Int))
      ⟨{.scope entered.1}, [], early⟩ := mislay_course (by decide) rfl rfl (by decide)
  have opened : Does ⟨{.scope entered.1}, [], early⟩ (.entered inner.1)
      ⟨.scope inner.1 ::ₘ {.scope entered.1}, [], inner.2⟩ := .enter listening
  have name : Course ⟨.scope inner.1 ::ₘ {.scope entered.1}, [], inner.2⟩ (mislaid .name "x")
      ⟨.scope inner.1 ::ₘ {.scope entered.1}, [], late⟩ := mislay_course (by decide) rfl rfl (by decide)
  have closed : Course ⟨.scope inner.1 ::ₘ {.scope entered.1}, [], late⟩
      [.leaving inner.1, .closed .tally inner.1.token _] ⟨_, [], (Slot.close .tally _ late).2⟩ :=
    .step (.startLeaving inner.1) (Does.close inner.1.token .tally [] true).course
  have course := code.append (.step opened (name.append closed))
  obtain ⟨_, linear⟩ := mislayTwice_linear (.scope entered.1 ::ₘ 0) entered.2
  have before : Course ⟨0, [], dawn⟩ [] ⟨0, [], dawn⟩ := .done _
  obtain ⟨_, counts⟩ := reports_tell_what_the_meter_has_heard rfl (by simp) before
    (Option.some_ne_none _) listening_listens linear
  have apart : inner.1.token ≠ entered.1.token := by decide
  have leaves : ∀ answer, ∀ deed ∈ [.leaving inner.1, .closed .tally inner.1.token answer],
      Deed.OnlyCounts echoed.raw entered.1.token deed := by
    simp [Deed.OnlyCounts, apart]
  have told := counts echoed _ _ course <| List.forall_mem_append.2 ⟨mislaid_counts _ _ _,
    List.forall_mem_cons.2 ⟨trivial, List.forall_mem_append.2 ⟨mislaid_counts _ _ _, leaves _⟩⟩⟩
  refine ⟨_, _, course, rfl, ?_⟩
  obtain ⟨report, produced, dropped, _⟩ := told.report rfl ⟨echoed, .empty⟩ rfl
  exact ⟨report, by rw [produced], dropped⟩

def picky : Handler application (Ledger application Unit) (Except FailureId (Option Tally)) :=
  ⟨[.take (Topic.ofKind .flag), .report], [], fun _ => pure (.ok none)⟩

/-- A body that mislays a code, and a name in a block that listens but handles nothing. -/
def unheard : Act application (Ledger application Unit) (Except FailureId (Option Tally)) := do
  mislay .code (7 : Int)
  handleSome (do mislay .name "x"; return .error echoed) (Chain.ofList [picky])

/-- Both payloads were dropped, but the report tells of one, the second. -/
theorem report_tells_one_stray_of_two :
    (handleAll unheard ⟨Chain.ofList [reporter], reporter, rfl, rfl⟩ dawn).1.toOption =
        some (some ⟨"app::types::Name", 1⟩) ∧
      (handleAll unheard ⟨Chain.ofList [reporter], reporter, rfl, rfl⟩ dawn).2.host.ended.length =
        2 := by
  decide +kernel

end Scenario

end FaultRelay

import FaultRelay.Proofs.Abreast
import FaultRelay.Proofs.Likeness

/-! Operations that do the same up to a renaming. An operation of one run follows that of another if
it draws as many identities, answers alike, and leaves alike worlds, whatever the renaming has grown
to in the meantime. No operation of the relay goes by the numbers of identities: it compares them,
and so each follows itself. -/
namespace FaultRelay

variable {V : Vocabulary} [Naming V] {σ α β : Type}

def FailureId.following (drawn : Nat) : Nat → List FailureId
  | 0 => []
  | count + 1 => numbered (drawn + count + 1) :: following drawn count

theorem FailureId.following_add (drawn first second : Nat) :
    following drawn (first + second) =
      following (drawn + first) second ++ following drawn first := by
  induction second with
  | zero => rfl
  | succ second ih =>
      rw [← Nat.add_assoc, following, following, ih, List.cons_append, Nat.add_assoc drawn first]

theorem FailureId.length_following (drawn count : Nat) :
    (following drawn count).length = count := by
  induction count with
  | zero => rfl
  | succ count ih => rw [following, List.length_cons, ih]

/-- Both runs went on and drew equally many identities, which the later renaming pairs in order. -/
structure Renaming.Draws (names later : Renaming) (before before' after after' : Process) :
    Prop where
  settings : after.settings = before.settings ∧ after'.settings = before'.settings
  drawn : ∃ count, after.drawn = before.drawn + count ∧ after'.drawn = before'.drawn + count ∧
    later.pairs = (FailureId.following before.drawn count).zip
      (FailureId.following before'.drawn count) ++ names.pairs

namespace Renaming.Draws

variable {names middle later : Renaming} {before before' between between' after after' : Process}

theorem refl (names : Renaming) (before before' : Process) :
    names.Draws names before before' before before' := ⟨⟨rfl, rfl⟩, 0, rfl, rfl, rfl⟩

theorem trans (first : names.Draws middle before before' between between')
    (second : middle.Draws later between between' after after') :
    names.Draws later before before' after after' := by
  obtain ⟨m, left, right, pairs⟩ := first.drawn
  obtain ⟨n, left', right', pairs'⟩ := second.drawn
  refine ⟨⟨second.settings.1.trans first.settings.1, second.settings.2.trans first.settings.2⟩,
    m + n, by omega, by omega, ?_⟩
  rw [pairs', pairs, left, right, FailureId.following_add, FailureId.following_add, List.zip_append,
    List.append_assoc]
  rw [FailureId.length_following, FailureId.length_following]

theorem le (draws : names.Draws later before before' after after') : names ≤ later := by
  obtain ⟨count, _, _, pairs⟩ := draws.drawn
  intro pair listed
  rw [pairs]
  exact List.mem_append_right _ listed

end Renaming.Draws

/-- Worlds that differ by the renaming alone, once the settings are decided. -/
structure World.Like [Observer σ] (peers : Peers σ) (names : Renaming) (world world' : World V σ) :
    Prop where
  installed : ∃ settings, world.process.settings = some settings ∧
    world'.process.settings = some settings
  drawn : ∀ pair ∈ names.pairs,
    pair.1.number ≤ world.process.drawn ∧ pair.2.number ≤ world'.process.drawn
  thread : world.thread.Like names world'.thread
  host : peers.Same world.host world'.host

/-- The operation of the first run is followed by that of the second. -/
def Follows [Observer σ] (peers : Peers σ) (names : Renaming) (like : Likeness α)
    (act act' : Quiet V σ α) : Prop :=
  ∀ now, names ≤ now → ∀ world world' : World V σ, World.Like peers now world world' →
    ∃ later, now.Draws later world.process world'.process (act world).2.process
        (act' world').2.process ∧
      like.At later (act world).1 (act' world').1 ∧
      World.Like peers later (act world).2 (act' world').2

abbrev Act.Follows [Observer σ] (peers : Peers σ) (names : Renaming) (like : Likeness α)
    (act act' : Act V σ α) : Prop :=
  FaultRelay.Follows (V := V) (α := Except (Exit V) α) peers names like.ended act act'

/-- Code that follows whenever it is called with what is alike. -/
def Likeness.code [Observer σ] (peers : Peers σ) (given : Likeness α) (like : Likeness β) :
    Likeness (α → Act V σ β) where
  At names code code' := ∀ later, names ≤ later → ∀ value value', given.At later value value' →
    Act.Follows peers later like (code value) (code' value')
  mono grown follows := fun later further => follows later (grown.trans further)

/-- What the application does on its own account goes by no number of an identity either. -/
structure Peers.Impartial [Host V σ] (peers : Peers σ) : Prop where
  destroy : ∀ names kind {value value' : V.Value kind},
    (Naming.value kind).At names value value' →
      Follows peers names .same (Host.destroy kind value : Quiet V σ Unit) (Host.destroy kind value')
  declared : ∀ names argument count,
    Follows peers names .same (Host.declared argument count : Quiet V σ Unit)
      (Host.declared argument count)
  available : ∀ names argument {case case' : Case V}, Likeness.case.At names case case' →
    Follows peers names .same (Host.available argument case : Quiet V σ Bool)
      (Host.available argument case')
  produced : ∀ names argument,
    Follows peers names Naming.product.optional
      (Host.produced argument : Quiet V σ (Option V.Product)) (Host.produced argument)

section Operations

variable [Host V σ] {peers : Peers σ} {names : Renaming} {like : Likeness α}

namespace World.Like

variable {world world' : World V σ}

theorem draw (alike : World.Like peers names world world') :
    ∃ later, names.Draws later world.process world'.process (FailureId.draw world).2.process
        (FailureId.draw world').2.process ∧
      later.Links (FailureId.draw world).1 (FailureId.draw world').1 ∧
      World.Like peers later (FailureId.draw world).2 (FailureId.draw world').2 := by
  let pair := ((FailureId.draw world).1, (FailureId.draw world').1)
  have left : pair.1.number = world.process.drawn + 1 := FailureId.number_numbered _
  have right : pair.2.number = world'.process.drawn + 1 := FailureId.number_numbered _
  have ascending : (pair :: names.pairs).Pairwise fun later earlier =>
      earlier.1.raw < later.1.raw ∧ earlier.2.raw < later.2.raw := by
    refine List.pairwise_cons.2 ⟨fun earlier listed => ?_, names.ascending⟩
    obtain ⟨bound, bound'⟩ := alike.drawn earlier listed
    change earlier.1.raw / 4 ≤ _ at bound
    change earlier.2.raw / 4 ≤ _ at bound'
    change _ < 4 * (world.process.drawn + 1) + 1 ∧ _ < 4 * (world'.process.drawn + 1) + 1
    omega
  let later : Renaming := ⟨pair :: names.pairs, ascending⟩
  have grown : names ≤ later := fun _ listed => List.mem_cons_of_mem _ listed
  refine ⟨later, ⟨⟨rfl, rfl⟩, 1, rfl, rfl, rfl⟩, List.mem_cons_self, alike.installed, ?_,
    alike.thread.mono grown, alike.host⟩
  intro other listed
  rcases List.mem_cons.1 listed with rfl | earlier
  · exact ⟨left.le, right.le⟩
  · obtain ⟨bound, bound'⟩ := alike.drawn other earlier
    exact ⟨Nat.le_succ_of_le bound, Nat.le_succ_of_le bound'⟩

end World.Like

namespace Follows

theorem mono {later : Renaming} {act act' : Quiet V σ α} (grown : names ≤ later)
    (follows : Follows peers names like act act') : Follows peers later like act act' :=
  fun now further => follows now (grown.trans further)

theorem still {value value' : α} (alike : like.At names value value') :
    Follows peers names like (pure value : Quiet V σ α) (pure value') :=
  fun now grown _ _ worlds => ⟨now, .refl _ _ _, like.mono grown alike, worlds⟩

theorem seq {other : Likeness β} {act act' : Quiet V σ α} {next next' : α → Quiet V σ β}
    (first : Follows peers names like act act')
    (rest : ∀ later, names ≤ later → ∀ value value', like.At later value value' →
      Follows peers later other (next value) (next' value')) :
    Follows peers names other (act >>= next) (act' >>= next') := by
  intro now grown world world' worlds
  obtain ⟨middle, draws, alike, worlds⟩ := first now grown world world' worlds
  obtain ⟨later, draws', alike, worlds⟩ :=
    rest middle (grown.trans draws.le) _ _ alike middle (le_refl _) _ _ worlds
  exact ⟨later, draws.trans draws', alike, worlds⟩

theorem agreed {other : Likeness β} {act act' : Quiet V σ α} {next next' : α → Quiet V σ β}
    (first : Follows peers names .same act act')
    (rest : ∀ later, names ≤ later → ∀ value, Follows peers later other (next value) (next' value)) :
    Follows peers names other (act >>= next) (act' >>= next') := by
  refine seq first ?_
  rintro later grown value _ rfl
  exact rest later grown value

theorem forM {act act' : α → Quiet V σ Unit} {list list' : List α}
    (alike : like.listed.At names list list')
    (each : ∀ later, names ≤ later → ∀ element element', like.At later element element' →
      Follows peers later .same (act element) (act' element')) :
    Follows peers names .same (list.forM act) (list'.forM act') := by
  induction alike with
  | nil => exact still rfl
  | cons first _ ih =>
      refine agreed (each names (le_refl _) _ _ first) fun later grown _ => ?_
      exact mono grown ih

theorem forEach {act act' : α → Quiet V σ Unit} (list : List α)
    (each : ∀ names element, Follows peers names .same (act element) (act' element)) :
    Follows peers names .same (list.forM act) (list.forM act') := by
  induction list generalizing names with
  | nil => exact still rfl
  | cons first rest ih => exact agreed (each names first) fun _ _ _ => ih

theorem discarding {act act' : Quiet V σ α} (follows : Follows peers names like act act') :
    Follows peers names .same (discard act) (discard act') := by
  intro now grown world world' worlds
  obtain ⟨later, draws, _, worlds⟩ := follows now grown world world' worlds
  exact ⟨later, draws, rfl, worlds⟩

section Threads

theorem reads (answer : Thread V → α)
    (answers : ∀ now thread thread', Thread.Like now thread thread' →
      like.At now (answer thread) (answer thread')) :
    Follows peers names like (fun world : World V σ => (answer world.thread, world))
      (fun world => (answer world.thread, world)) :=
  fun now _ _ _ worlds => ⟨now, .refl _ _ _, answers now _ _ worlds.thread, worlds⟩

theorem changes (change change' : Thread V → Thread V)
    (keeps : ∀ now, names ≤ now → ∀ thread thread', thread.Like now thread' →
      (change thread).Like now (change' thread')) :
    Follows peers names .same (Quiet.modifyThread change : Quiet V σ Unit)
      (Quiet.modifyThread change') :=
  fun now grown _ _ worlds => ⟨now, .refl _ _ _, rfl,
    { worlds with thread := keeps now grown _ _ worlds.thread }⟩

theorem emit (event event' : Event) :
    Follows peers names .same (emit event : Quiet V σ Unit) (FaultRelay.emit event') :=
  fun now _ _ _ worlds => ⟨now, .refl _ _ _, rfl,
    { worlds with
      host := peers.same.trans (peers.told _ _)
        (peers.same.trans worlds.host (peers.same.symm (peers.told _ _))) }⟩

theorem onStack {key : Key V} {change change' : Stack key.Value → α × Stack key.Value}
    (keeps : ∀ now, names ≤ now → ∀ stack stack', (Likeness.value key).stack.At now stack stack' →
      (like.both (Likeness.value key).stack).At now (change stack) (change' stack')) :
    Follows peers names like (Slot.onStack key change : Quiet V σ α)
      (Slot.onStack key change') := by
  intro now grown world world' worlds
  obtain ⟨answers, kept⟩ := keeps now grown _ _ (worlds.thread.stack key)
  exact ⟨now, .refl _ _ _, answers, { worlds with thread := worlds.thread.setStack key kept }⟩

theorem thread :
    Follows peers names .thread (Quiet.thread : Quiet V σ (Thread V)) Quiet.thread :=
  reads (fun thread => thread) fun _ _ _ alike => alike

theorem current :
    Follows peers names Likeness.id.optional (FailureId.current : Quiet V σ _) FailureId.current :=
  reads Thread.current fun _ _ _ alike => alike.current

theorem unwinding :
    Follows peers names .same (Guard.unwinding : Quiet V σ Bool) Guard.unwinding :=
  reads (fun thread => decide (0 < thread.unwindings)) fun _ _ _ alike =>
    congrArg (fun count => decide (0 < count)) alike.unwindings

theorem types : Follows peers names .same (Slot.types : Quiet V σ Nat) Slot.types :=
  reads (fun thread => (thread.store.map Store.types).getD 0) fun _ thread thread' alike => by
    obtain ⟨store, lastToken, tallying, current, reserved, unwindings⟩ := thread
    obtain ⟨store', lastToken', tallying', current', reserved', unwindings'⟩ := thread'
    cases alike.store with
    | none => rfl
    | some stores => exact Store.types_alike stores

end Threads

section Drawing

theorem upcoming :
    Follows peers names .id (FailureId.upcoming : Quiet V σ _) FailureId.upcoming := by
  intro now grown world world' worlds
  have promises := worlds.thread.reserved
  rcases promised : world.thread.reserved with _ | id <;>
    rcases promised' : world'.thread.reserved with _ | id' <;>
    rw [promised, promised'] at promises <;> cases promises
  · rw [FailureId.upcoming_unreserved promised, FailureId.upcoming_unreserved promised']
    exact worlds.draw
  · rename_i linked
    rw [FailureId.upcoming_reserved promised, FailureId.upcoming_reserved promised']
    exact ⟨now, .refl _ _ _, linked, worlds⟩

theorem mint : Follows peers names .id (FailureId.mint : Quiet V σ _) FailureId.mint := by
  refine seq upcoming fun later _ id id' linked => ?_
  refine agreed (changes _ _ fun now grown thread thread' alike => ?_) fun now grown _ =>
    still (grown _ linked)
  exact { alike with reserved := .none, current := .some (grown _ linked) }

theorem reserve : Follows peers names .id (FailureId.reserve : Quiet V σ _) FailureId.reserve := by
  refine seq upcoming fun later _ id id' linked => ?_
  refine agreed (changes _ _ fun now grown thread thread' alike => ?_) fun now grown _ =>
    still (grown _ linked)
  exact { alike with reserved := .some (grown _ linked) }

end Drawing

section Settings

theorem inForce :
    Follows peers names .same (Settings.inForce : Quiet V σ Settings) Settings.inForce := by
  intro now _ world world' worlds
  obtain ⟨settings, installed, installed'⟩ := worlds.installed
  have decided : ∀ world : World V σ, world.process.settings = some settings →
      Settings.inForce world = (settings, world) := by
    rintro ⟨⟨drawn, _, environment⟩, thread, host⟩ rfl
    rfl
  rw [decided world installed, decided world' installed']
  exact ⟨now, .refl _ _ _, rfl, worlds⟩

theorem adopt (settings : Settings) :
    Follows peers names .same (settings.adopt : Quiet V σ Bool) settings.adopt := by
  intro now _ world world' worlds
  obtain ⟨decided, installed, installed'⟩ := worlds.installed
  have refused : ∀ world : World V σ, world.process.settings = some decided →
      settings.adopt world = (false, world) := by
    rintro ⟨⟨drawn, _, environment⟩, thread, host⟩ rfl
    rfl
  rw [refused world installed, refused world' installed']
  exact ⟨now, .refl _ _ _, rfl, worlds⟩

theorem tallying :
    Follows peers names .same (FaultRelay.tallying : Quiet V σ Bool) FaultRelay.tallying := by
  refine agreed inForce fun later _ settings => ?_
  exact reads (fun thread => settings.diagnostics && decide (0 < thread.tallying))
    fun _ _ _ alike =>
      congrArg (fun count => settings.diagnostics && decide (0 < count)) alike.tallying

end Settings

section Slots

variable {key : Key V} {id id' : FailureId}

theorem stack (key : Key V) :
    Follows peers names (Likeness.value key).stack (Slot.stack key : Quiet V σ _)
      (Slot.stack key) :=
  reads (fun thread => thread.stack key) fun _ _ _ alike => alike.stack key

theorem depth (key : Key V) :
    Follows peers names .same (Slot.depth key : Quiet V σ Nat) (Slot.depth key) :=
  reads (fun thread => (thread.stack key).depth) fun _ _ _ alike =>
    Stack.depth_alike (alike.stack key)

theorem isOpen (key : Key V) :
    Follows peers names .same (Slot.isOpen key : Quiet V σ Bool) (Slot.isOpen key) :=
  reads (fun thread => (thread.stack key).isOpen) fun _ _ _ alike =>
    Stack.isOpen_alike (alike.stack key)

theorem topId? (key : Key V) :
    Follows peers names Likeness.tag.optional (Slot.topId? key : Quiet V σ _) (Slot.topId? key) :=
  reads (fun thread => (thread.stack key).topId?) fun _ _ _ alike =>
    Stack.topId?_alike (alike.stack key)

theorem holds (key : Key V) (linked : names.Links id id') :
    Follows peers names .same (Slot.holds key id.raw : Quiet V σ Bool)
      (Slot.holds key id'.raw) := by
  refine seq (topId? key) fun later grown top top' alike => still ?_
  have same := Likeness.optional_eq_iff Likeness.tag_eq_iff alike
    (.some (Likeness.tag_of_linked (grown _ linked)))
  change (top == some id.raw) = (top' == some id'.raw)
  rw [Bool.eq_iff_iff, beq_iff_eq, beq_iff_eq, same]

theorem valueFor (key : Key V) (linked : names.Links id id') :
    Follows peers names (Likeness.value key).optional (Slot.valueFor key id.raw : Quiet V σ _)
      (Slot.valueFor key id'.raw) :=
  seq (stack key) fun _ grown _ _ alike =>
    still (Stack.valueFor_alike alike (Likeness.tag_of_linked (grown _ linked)))

theorem takeFor (key : Key V) (linked : names.Links id id') :
    Follows peers names (Likeness.value key).optional (Slot.takeFor key id.raw : Quiet V σ _)
      (Slot.takeFor key id'.raw) :=
  onStack fun _ grown _ _ alike =>
    Stack.takeFor_alike alike (Likeness.tag_of_linked (grown _ linked))

theorem put (linked : names.Links id id') {value value' : key.Value}
    (alike : (Likeness.value key).At names value value') :
    Follows peers names (Likeness.value key).stored (Slot.put key id.raw value : Quiet V σ _)
      (Slot.put key id'.raw value') :=
  onStack fun _ grown _ _ frames =>
    Stack.put_alike frames (Likeness.tag_of_linked (grown _ linked))
      ((Likeness.value key).mono grown alike)

theorem close (key : Key V) (owner : Token) :
    Follows peers names (Likeness.value key).closed (Slot.close key owner : Quiet V σ _)
      (Slot.close key owner) :=
  onStack fun _ _ _ _ alike => Stack.close_alike alike owner

theorem openFor (key : Key V) (owner : Token) :
    Follows peers names .same (Slot.openFor key owner : Quiet V σ Nat)
      (Slot.openFor key owner) := by
  refine seq (stack key) fun later _ _ _ alike => ?_
  refine agreed (changes _ _ fun now grown thread thread' threads => ?_) fun _ _ _ => depth key
  exact threads.setStack key ((Likeness.value key).stack.mono grown
    (Stack.openFor_alike alike owner))

theorem openSlot (owner : Token) (key : Key V) :
    Follows peers names .same (Scope.openSlot owner key : Quiet V σ Unit)
      (Scope.openSlot owner key) :=
  agreed (openFor key owner) fun _ _ _ => emit _ _

theorem editTop {change change' : Option (Nat × key.Value) → Option (Nat × key.Value)}
    (changes : ∀ now, names ≤ now → ∀ held held',
      (Likeness.tag.both (.value key)).optional.At now held held' →
      (Likeness.tag.both (.value key)).optional.At now (change held) (change' held')) :
    Follows peers names .same (Slot.editTop key change : Quiet V σ Bool)
      (Slot.editTop key change') := by
  refine onStack fun now grown before before' alike => ⟨Stack.isOpen_alike alike, ?_⟩
  refine Stack.onTop_alike alike fun top => ?_
  cases top with
  | mk owner refs held => exact .mk owner refs (changes now grown _ _ held)

end Slots

section Recording

variable (impartial : peers.Impartial (V := V)) {key : Key V} {id id' : FailureId}

theorem noteStray (key : Key V) (linked : names.Links id id') :
    Follows peers names .same (FaultRelay.noteStray key id : Quiet V σ Unit)
      (FaultRelay.noteStray key id') := by
  refine agreed (emit _ _) fun middle grown _ => ?_
  refine agreed tallying fun later further counting => ?_
  have tagged : Likeness.tag.At later id.raw id'.raw :=
    Likeness.tag_of_linked (further _ (grown _ linked))
  have counted : Follows peers later .same
      (Slot.editTop .tally (countStray key.name id.raw) : Quiet V σ Bool)
      (Slot.editTop .tally (countStray key.name id'.raw)) := by
    refine editTop fun now grown held held' alike => ?_
    have tagged := Likeness.tag.mono grown tagged
    cases alike with
    | none => exact .some ⟨tagged, rfl⟩
    | @some counted counted' alike =>
        obtain ⟨other, tally⟩ := counted
        obtain ⟨other', tally'⟩ := counted'
        obtain ⟨others, rfl⟩ : Likeness.tag.At now other other' ∧ tally = tally' := alike
        unfold countStray
        simp only [Likeness.tag_eq_iff others tagged]
        split <;> exact .some ⟨tagged, rfl⟩
  cases counting with
  | false => exact still rfl
  | true => exact discarding counted

include impartial

theorem release {value value' : key.Value} (alike : (Likeness.value key).At names value value') :
    Follows peers names .same (release key value : Quiet V σ Unit)
      (FaultRelay.release key value') := by
  cases key with
  | app kind => exact impartial.destroy names kind alike
  | tally | thrown => exact still rfl

theorem releaseAll {payloads payloads' : List (Payload V)}
    (alike : Likeness.payload.listed.At names payloads payloads') :
    Follows peers names .same (releaseAll payloads : Quiet V σ Unit)
      (FaultRelay.releaseAll payloads') := by
  induction alike with
  | nil => exact still rfl
  | cons first _ ih =>
      obtain ⟨key, alike⟩ := first
      exact agreed (release impartial alike) fun _ grown _ => ih.mono grown

theorem record (linked : names.Links id id') {value value' : key.Value}
    (alike : (Likeness.value key).At names value value') :
    Follows peers names .same (record key value id : Quiet V σ Bool)
      (FaultRelay.record key value' id') := by
  refine seq (put linked alike) fun later grown answer answer' alike => ?_
  cases alike with
  | stored previous =>
      cases previous with
      | none => exact still rfl
      | some replaced => exact agreed (release impartial replaced) fun _ _ _ => still rfl
  | rejected refused =>
      refine agreed (release impartial refused) fun _ further _ => ?_
      exact agreed (noteStray key (further _ (grown _ linked))) fun _ _ _ => still rfl

theorem recordAll {payloads payloads' : List (Payload V)}
    (alike : Likeness.payload.listed.At names payloads payloads') (linked : names.Links id id') :
    Follows peers names .same (recordAll payloads id : Quiet V σ Unit)
      (FaultRelay.recordAll payloads' id') := by
  induction alike with
  | nil => exact still rfl
  | cons first _ ih =>
      obtain ⟨key, alike⟩ := first
      exact agreed (discarding (record impartial linked alike)) fun _ grown _ => ih.mono grown

theorem newFailure {payloads payloads' : List (Payload V)}
    (alike : Likeness.payload.listed.At names payloads payloads') :
    Follows peers names .id (newFailure payloads : Quiet V σ FailureId)
      (FaultRelay.newFailure payloads') := by
  refine seq mint fun later grown id id' linked => ?_
  refine agreed (recordAll impartial (Likeness.mono _ grown alike) linked) fun _ further _ => ?_
  exact still (further _ linked)

theorem restore (owner : Token) (linked : names.Links id id') {value value' : key.Value}
    (alike : (Likeness.value key).At names value value') :
    Follows peers names .same (Slot.restore key owner id.raw value : Quiet V σ Unit)
      (Slot.restore key owner id'.raw value') := by
  refine seq (stack key) fun later grown now now' frames => ?_
  have alike := (Likeness.value key).mono grown alike
  have theirs := Stack.frameOf?_alike frames owner
  generalize now.frameOf? owner = frame at theirs ⊢
  generalize now'.frameOf? owner = frame' at theirs ⊢
  cases theirs with
  | none => exact release impartial alike
  | some theirs =>
      obtain ⟨owner', refs, held⟩ := theirs
      cases held with
      | some => exact release impartial alike
      | none =>
          refine changes _ _ fun now further thread thread' threads => threads.setStack key ?_
          have tagged := Likeness.tag_of_linked (further _ (grown _ linked))
          exact Stack.onFrame_alike ((Likeness.value key).stack.mono further frames) owner
            fun frame => frame.put tagged ((Likeness.value key).mono further alike)

theorem endStorage :
    Follows peers names .same (Slot.endStorage : Quiet V σ Unit) Slot.endStorage := by
  have stored : Follows peers names Likeness.store.optional
      ((·.store) <$> Quiet.thread : Quiet V σ (Option (Store V))) ((·.store) <$> Quiet.thread) :=
    reads Thread.store fun _ _ _ alike => alike.store
  refine seq stored fun later _ store store' alike => ?_
  refine seq (changes _ _ fun _ _ _ _ threads => { threads with store := .none })
    fun middle grown _ _ _ => ?_
  cases alike with
  | none => exact still rfl
  | some alike =>
      have entries := Likeness.entry.listed.mono grown alike
      refine forM entries ?_
      rintro later _ _ _ ⟨key, frames⟩
      have values : (Likeness.value key).listed.At later _ _ :=
        List.rel_filterMap (fun _ _ frame => Frame.Like.value? frame)
          (List.forall₂_reverse_iff.2 frames)
      exact forM values fun _ _ _ _ alike => release impartial alike

end Recording

section Scopes

theorem counted (change : Nat → Nat) :
    Follows peers names .same
      (Quiet.modifyThread fun thread => { thread with tallying := change thread.tallying } :
        Quiet V σ Unit)
      (Quiet.modifyThread fun thread => { thread with tallying := change thread.tallying }) :=
  changes _ _ fun _ _ _ _ threads => { threads with tallying := congrArg change threads.tallying }

theorem enter (scope : Scope V) :
    Follows peers names .same (scope.enter : Quiet V σ (OpenScope V)) scope.enter := by
  have token : Follows peers names .same (Token.next : Quiet V σ Token) Token.next := by
    refine seq thread fun later _ before before' alike => ?_
    rw [alike.lastToken]
    exact agreed (changes _ _ fun _ _ _ _ threads => { threads with lastToken := rfl })
      fun _ _ _ => still rfl
  refine agreed token fun _ _ owner => ?_
  refine agreed (forEach _ fun _ key => openSlot owner key) fun _ _ _ => ?_
  cases scope.interest.tallies with
  | false => exact agreed (emit _ _) fun _ _ _ => still rfl
  | true =>
      refine agreed (counted (· + 1)) fun _ _ _ => ?_
      exact agreed (emit _ _) fun _ _ _ => still rfl

variable (impartial : peers.Impartial (V := V))
include impartial

theorem closeSlot (owner : Token) (key : Key V) :
    Follows peers names .same (Scope.closeSlot owner key : Quiet V σ Unit)
      (Scope.closeSlot owner key) := by
  refine seq (close key owner) fun later _ closed closed' alike => ?_
  cases alike with
  | retained | released | notOpen => exact still rfl
  | propagated _ replaces =>
      refine agreed (emit _ _) fun _ grown _ => ?_
      cases replaces with
      | none => exact still rfl
      | some alike => exact release impartial ((Likeness.value key).mono grown alike)
  | discarded _ alike =>
      exact agreed (emit _ _) fun _ grown _ =>
        release impartial ((Likeness.value key).mono grown alike)

theorem leave (active : OpenScope V) :
    Follows peers names .same (active.leave : Quiet V σ Unit) active.leave := by
  refine agreed (forEach _ fun _ key => closeSlot impartial active.token key) fun _ _ _ => ?_
  cases active.tallies with
  | false => exact emit _ _
  | true => exact agreed (counted (· - 1)) fun _ _ _ => emit _ _

end Scopes

end Follows

end Operations

end FaultRelay
